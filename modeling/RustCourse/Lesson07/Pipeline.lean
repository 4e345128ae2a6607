import Mathlib.Algebra.BigOperators.Fin
import RustCourse.Lesson07.ForkJoin

/-!
# What a pipeline computes

Every stage implements a loop over one item at a time, channels forward, and
implementations compose, so a pipeline computes the composition of its stages.  For
functions that return this is the composition of `map`, `filter` and `filterMap` of
lists (`pipeline_semantics`).

## Strategy

One lemma for each method of the builder says that it puts a stage behind what is there
(`filterMap_implements`, `forkJoin_implements`), so the configured builder implements the
composition of the behaviours (`configure_implements`).  For functions that return,
`emitted_of_returns` and `joined_of_returns` turn the loops into functions on lists, and what
was received is a prefix of the result, all of it once the end of the stream was seen.
-/

namespace RustCourse.Lesson07

open Dataflow Transition

variable {A I O L U : Type}

/-! ## The stages -/

namespace FactorioBuilder

theorem new_implements (T : Type) (queueSize : ℕ) :
    Implements (new T queueSize).pipeline .forward := by
  have hemitted : ∀ xs : List T, emitted (fun t => .ret (some t)) xs = xs := by
    intro xs
    induction xs with
    | nil => rfl
    | cons x rest ih => simp [emitted, ih]
  refine ((syncChannel_implements queueSize).seq
    ((thread_implements _).channel queueSize)).congr (fun xs => ?_) fun xs => ?_
  · exact (hemitted xs).symm
  · simp [Behaviour.comp, Behaviour.forward, Behaviour.total, each, Panics]

theorem filterMap_implements {builder : FactorioBuilder I O} {B : Behaviour I O}
    (h : Implements builder.pipeline B) (f : O → Outcome (Option U)) :
    Implements (builder.filterMap f).pipeline (B.comp (each f)) :=
  h.seq ((thread_implements f).channel _)

theorem forkJoin_implements {builder : FactorioBuilder I O} {B : Behaviour I O}
    (h : Implements builder.pipeline B) (workerFunction : O → ℕ → Outcome L) {nLines : ℕ}
    (hlines : 1 ≤ nLines) (join : List L → Outcome U) :
    Implements (builder.forkJoin workerFunction nLines join).pipeline
      (B.comp (each (joined workerFunction nLines join))) :=
  h.seq ((ForkJoin.lines_implements (ForkJoin.worker_implements _ workerFunction) hlines).channel _)

end FactorioBuilder

/-! ## Functions that return -/

theorem emitted_of_returns {f : O → Outcome (Option U)} {g : O → Option U}
    (h : ∀ o, f o = .ret (g o)) (xs : List O) : emitted f xs = xs.filterMap g := by
  induction xs with
  | nil => rfl
  | cons x rest ih => cases hx : g x <;> simp [emitted, h, hx, ih]

theorem joined_of_returns (workerFunction : O → ℕ → L) (nLines : ℕ) (join : List L → U) (x : O) :
    joined (fun o line => .ret (workerFunction o line)) nLines
        (fun outputs => .ret (join outputs)) x
      = .ret (some (join ((List.range nLines).map (workerFunction x)))) := by
  have hcalls : (List.range nLines).map (fun line => Outcome.ret (workerFunction x line)) =
      ((List.range nLines).map (workerFunction x)).map .ret := by simp
  rw [joined, hcalls, Outcome.all_map_ret]
  rfl

namespace Stages

/-! Every stage computes a `filterMap`. -/

theorem semantics_map (stages : Stages I O) (f : O → U) (xs : List I) :
    (stages.map f).semantics xs = (stages.semantics xs).filterMap fun o => some (f o) := by
  simp [semantics]

theorem semantics_filter (stages : Stages I O) (f : O → Bool) (xs : List I) :
    (stages.filter f).semantics xs =
      (stages.semantics xs).filterMap fun o => if f o then some o else Option.none := by
  simp [semantics, ← List.filterMap_eq_filter, Option.guard]

theorem semantics_forkJoin (stages : Stages I O) (workerFunction : O → ℕ → L) {nLines : ℕ}
    (join : List L → U) (hlines : 1 ≤ nLines) (xs : List I) :
    (stages.forkJoin workerFunction nLines join hlines).semantics xs =
      (stages.semantics xs).filterMap fun o =>
        some (join ((List.range nLines).map (workerFunction o))) := by
  simp [semantics]

theorem semantics_mono (stages : Stages I O) {xs ys : List I} (h : xs <+: ys) :
    stages.semantics xs <+: stages.semantics ys := by
  induction stages with
  | none => exact h
  | map _ f ih => exact ih.map f
  | filter _ f ih => exact ih.filter f
  | filterMap _ f ih => exact ih.filterMap f
  | forkJoin _ _ _ _ _ ih => exact ih.map _

/-- The stages as a behaviour. -/
def behaviour (stages : Stages I O) : Behaviour I O :=
  .total stages.semantics stages.semantics_mono

variable {B : Behaviour A I}

/-- Putting one more loop whose function returns behind some stages. -/
theorem implements_each {C : Component A U} {stages : Stages I O} {next : Stages I U}
    {f : O → Outcome (Option U)} {g : O → Option U}
    (h : Implements C ((B.comp stages.behaviour).comp (each f))) (hf : ∀ o, f o = .ret (g o))
    (hnext : ∀ xs, next.semantics xs = (stages.semantics xs).filterMap g) :
    Implements C (B.comp next.behaviour) := by
  refine h.congr (fun xs => ?_) fun xs => ?_
  · exact (hnext _).trans (emitted_of_returns hf _).symm
  · simp [behaviour, Behaviour.comp, Behaviour.total, each, Panics, hf]

/-- Stages put their semantics behind what a builder does. -/
theorem configure_implements {builder : FactorioBuilder A I} (h : Implements builder.pipeline B)
    (stages : Stages I O) :
    Implements (stages.configure builder).pipeline (B.comp stages.behaviour) := by
  induction stages with
  | none =>
      refine h.congr (fun xs => rfl) fun xs => ?_
      simp [behaviour, Behaviour.comp, Behaviour.total]
  | map stages f ih =>
      exact implements_each (FactorioBuilder.filterMap_implements ih _) (fun o => rfl)
        (stages.semantics_map f)
  | filter stages f ih =>
      exact implements_each (FactorioBuilder.filterMap_implements ih _) (fun o => rfl)
        (stages.semantics_filter f)
  | filterMap stages f ih =>
      exact implements_each (FactorioBuilder.filterMap_implements ih _) (fun o => rfl)
        fun xs => rfl
  | forkJoin stages workerFunction nLines join hlines ih =>
      exact implements_each (FactorioBuilder.forkJoin_implements ih _ hlines _)
        (joined_of_returns workerFunction nLines join)
        (stages.semantics_forkJoin workerFunction join hlines)

theorem configure_new_implements (stages : Stages I O) (queueSize : ℕ) :
    Implements (stages.configure (.new I queueSize)).pipeline stages.behaviour := by
  refine (configure_implements (FactorioBuilder.new_implements I queueSize) stages).congr
    (fun xs => rfl) fun xs => ?_
  simp [behaviour, Behaviour.comp, Behaviour.forward, Behaviour.total]

end Stages

/-! ## The pipeline -/

/-- **The semantics of a pipeline.**  In every state that a pipeline reaches, with any
queue size and any interleaving of its threads, the items received are a prefix of what
the stages compute from the items sent; and when the receiver has seen the end of the
stream, the sender was dropped and the items received are all of them. -/
theorem pipeline_semantics (stages : Stages I O) (queueSize : ℕ)
    {trace : List ((stages.configure (.new I queueSize)).pipeline.State × Exchange I O)}
    {s : (stages.configure (.new I queueSize)).pipeline.State}
    (hrun : (stages.configure (.new I queueSize)).pipeline.Runs trace s) :
    items (outputs trace) <+: stages.semantics (items (inputs trace)) ∧
      (Ended (outputs trace) → Ended (inputs trace) ∧
        items (outputs trace) = stages.semantics (items (inputs trace))) := by
  have himpl := stages.configure_new_implements queueSize
  refine ⟨himpl.items hrun, fun hended => ?_⟩
  obtain ⟨hitems, hcause⟩ := himpl.ended hrun hended
  exact ⟨hcause.resolve_right id, hitems⟩

/-- Two lines that add their number, and the sum of what they make of an item. -/
def twoLines : Stages ℕ ℕ :=
  Stages.none.forkJoin (fun x line => x + line) 2 List.sum (Nat.le_succ 1)

/-- Two items go through two lines, the second line being faster with the first item and the
second item being dealt before the results of the first are gathered; then the sender is
dropped and the receiver sees the end. -/
theorem pipeline_semantics_twoLines :
    ∃ trace s, (twoLines.configure (.new ℕ 1)).pipeline.Runs trace s ∧
      items (inputs trace) = [3, 5] ∧ items (outputs trace) = [7, 11] ∧
      Ended (inputs trace) ∧ items (outputs trace) = twoLines.semantics (items (inputs trace)) := by
  have start : (twoLines.configure (.new ℕ 1)).pipeline.Runs []
      ((⟨[], true, true⟩, .waiting, ⟨[], true, true⟩),
        ⟨.waiting, fun _ => (⟨[], true, true⟩, .waiting, ⟨[], true, true⟩), .gathering []⟩,
        ⟨[], true, true⟩) := .nil
  have hfirst := (((((start.snoc
    (.left (.left (.send (x := 3) (by decide))))).snoc
    (.left (.both .recv (.left (.produce rfl))))).snoc
    (.left (.right (.both .send (.send (by decide)))))).snoc
    (.both (.right (.right .recv)) (.left .receive))).snoc
    (.right (.left (.distribute (k := 0) (.left (.send (by decide))))))).snoc
    (.right (.left (.distribute (k := 1) (.left (.send (by decide))))))
  have hfaster := (hfirst.snoc
    (.right (.left (.work (k := 1) (.both .recv (.left (.produce rfl))))))).snoc
    (.right (.left (.work (k := 1) (.right (.both .send (.send (by decide)))))))
  have hsecond := (((((hfaster.snoc
    (.left (.left (.send (x := 5) (by decide))))).snoc
    (.left (.both .recv (.left (.produce rfl))))).snoc
    (.left (.right (.both .send (.send (by decide)))))).snoc
    (.both (.right (.right .recv)) (.left .receive))).snoc
    (.right (.left (.work (k := 0) (.both .recv (.left (.produce rfl))))))).snoc
    (.right (.left (.distribute (k := 0) (.left (.send (by decide))))))
  -- the sender is dropped while both items are on their way
  have hdropped := hsecond.snoc (.left (.left .dropSender))
  have hdealt := (hdropped.snoc
    (.right (.left (.distribute (k := 1) (.left (.send (by decide))))))).snoc
    (.right (.left (.work (k := 0) (.right (.both .send (.send (by decide)))))))
  have hjoined := ((((hdealt.snoc
    (.right (.left (.gather (k := 0) rfl (.right (.right .recv)))))).snoc
    (.right (.left (.gather (k := 1) rfl (.right (.right .recv)))))).snoc
    (.right (.left (.join rfl rfl)))).snoc
    (.right (.both .send (.send (by decide))))).snoc
    (.right (.right .recv))
  have hworked := (((hjoined.snoc
    (.right (.left (.work (k := 0) (.both .recv (.left (.produce rfl))))))).snoc
    (.right (.left (.work (k := 1) (.both .recv (.left (.produce rfl))))))).snoc
    (.right (.left (.work (k := 1) (.right (.both .send (.send (by decide)))))))).snoc
    (.right (.left (.work (k := 0) (.right (.both .send (.send (by decide)))))))
  have hboth := ((((hworked.snoc
    (.right (.left (.gather (k := 0) rfl (.right (.right .recv)))))).snoc
    (.right (.left (.gather (k := 1) rfl (.right (.right .recv)))))).snoc
    (.right (.left (.join rfl rfl)))).snoc
    (.right (.both .send (.send (by decide))))).snoc
    (.right (.right .recv))
  -- the end goes the same way
  have hended := ((((((((hboth.snoc
    (.left (.both .recvFails (.left .recvFails)))).snoc
    (.left (.right (.both .dropSender .dropSender)))).snoc
    (.both (.right (.right .recvFails)) (.left .recvFails))).snoc
    (.right (.left (.dropLineSender (k := 0) (.left .dropSender))))).snoc
    (.right (.left (.work (k := 0) (.both .recvFails (.left .recvFails)))))).snoc
    (.right (.left (.work (k := 0) (.right (.both .dropSender .dropSender)))))).snoc
    (.right (.left (.gatherFails (k := 0) rfl (.right (.right .recvFails)))))).snoc
    (.right (.both .dropSender .dropSender))).snoc
    (.right (.right .recvFails))
  obtain ⟨hsender, hall⟩ := (pipeline_semantics twoLines 1 hended).2 rfl
  exact ⟨_, _, hended, rfl, rfl, hsender, hall⟩

end RustCourse.Lesson07
