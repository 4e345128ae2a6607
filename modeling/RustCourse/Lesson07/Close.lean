import RustCourse.Lesson07.Pipeline
import RustCourse.Lesson07.Poised
import RustCourse.Lesson07.Ranks

/-!
# Closing a pipeline

`Pipeline::close` joins the threads of all stages.  Every stage is one in the sense of
`Lib/Liveness` and every pipeline has a rank, so once its input was dropped a pipeline whose
functions return cannot get stuck before all its threads have terminated, and it does not go
on forever (`pipeline_shuts_down`).

## Strategy

The three parts are progress, a bound and the end.  Progress comes from `Responsive.moves`,
since every stage is one of `Lib/Liveness`; the bound is the rank of the pipeline; and a state
without another move is one in which all handles are joined (`handles_of_item`), because the
reader takes what is offered to it.
-/

namespace RustCourse.Lesson07

open Dataflow Transition

variable {I O L U : Type}

/-! ## The handles -/

namespace ForkJoin

/-- `worker_handles`, the distributer and the gatherer: which of them have terminated. -/
def handles {queueSize nLines : ℕ} {workerFunction : O → ℕ → Outcome L}
    (s : State O U (worker queueSize workerFunction) nLines) : List Bool :=
  (List.ofFn fun k => (s.lines k).2.1.finished) ++
    [s.distributer.finished nLines, s.gatherer.finished nLines]

end ForkJoin

/-- `handles` of the pipeline: which threads have terminated, in the order they were pushed. -/
def Stages.handles (queueSize : ℕ) : {O : Type} → (stages : Stages I O) →
    (stages.configure (.new I queueSize)).pipeline.State → List Bool
  | _, .none, s => [s.2.1.finished]
  | _, .map stages _, s => handles queueSize stages s.1 ++ [s.2.1.finished]
  | _, .filter stages _, s => handles queueSize stages s.1 ++ [s.2.1.finished]
  | _, .filterMap stages _, s => handles queueSize stages s.1 ++ [s.2.1.finished]
  | _, .forkJoin stages _ _ _ _, s => handles queueSize stages s.1 ++ ForkJoin.handles s.2.1

/-- `Pipeline::close`: every `join` waits until its thread has terminated.  A thread whose
function returns does not panic, so no `unwrap` does. -/
def Pipeline.close : List Bool → Option Unit
  | [] => some ()
  | true :: rest => close rest
  | false :: _ => none

theorem Pipeline.close_eq_some {handles : List Bool}
    (h : ∀ terminated ∈ handles, terminated = true) : close handles = some () := by
  induction handles with
  | nil => rfl
  | cons terminated rest ih =>
      obtain rfl : terminated = true := h terminated List.mem_cons_self
      exact ih fun terminated hmem => h terminated (List.mem_cons_of_mem _ hmem)

/-! ## Pipelines are responsive -/

namespace ForkJoin

variable {f : O → ℕ → Outcome L}

theorem worker_separate (queueSize : ℕ) : (worker queueSize f).Separate :=
  Component.Separate.seq_right (Component.Separate.seq_left thread_separate)

theorem worker_responsive (hf : ∀ x k, ∃ y, f x k = .ret y) (queueSize : ℕ) :
    Responsive (worker queueSize f) (each fun job => (f job.1 job.2).map some)
      fun s => s.2.1.finished = true := by
  have hreturns : ∀ job : O × ℕ, ∃ result, (f job.1 job.2).map some = .ret result := by
    intro job
    obtain ⟨y, hy⟩ := exists_job_result hf job
    exact ⟨some y, hy⟩
  refine ((syncChannel_responsive queueSize).stage (thread_stage hreturns) queueSize).congr
    (fun _ => rfl) (fun _ => ?_) fun s hdone => hdone.2
  simp [Behaviour.comp, Behaviour.forward, Behaviour.total]

theorem lines_separate {Line : Component (O × ℕ) L} {nLines : ℕ} {join : List L → Outcome U} :
    (ForkJoin.lines Line nLines join).Separate := by
  intro s s' signal o hstep
  cases hstep <;> rfl

end ForkJoin

namespace Stages

/-- All threads have terminated. -/
def Closed (stages : Stages I O) (queueSize : ℕ)
    (s : (stages.configure (.new I queueSize)).pipeline.State) : Prop :=
  ∀ terminated ∈ stages.handles queueSize s, terminated = true

/-- Putting one more stage behind a responsive pipeline. -/
theorem responsive_stage {C : Component I O} {T : Component O U} {stages : Stages I O}
    {next : Stages I U} {Done : C.State → Prop} {DoneT : T.State → Prop}
    {f : O → Outcome (Option U)} {g : O → Option U} {queueSize : ℕ}
    {Done' : (C.seq (T.seq (syncChannel U queueSize))).State → Prop}
    (h : Responsive C stages.behaviour Done) (hT : Stage T (each f) DoneT)
    (hf : ∀ o, f o = .ret (g o))
    (hnext : ∀ xs, next.semantics xs = (stages.semantics xs).filterMap g)
    (hdone : ∀ s, Done s.1 ∧ DoneT s.2.1 → Done' s) :
    Responsive (C.seq (T.seq (syncChannel U queueSize))) next.behaviour Done' := by
  refine (h.stage hT queueSize).congr (fun xs => ?_) (fun xs => ?_) hdone
  · exact (hnext xs).trans (emitted_of_returns hf _).symm
  · simp [behaviour, Behaviour.comp, Behaviour.total, each, Panics, hf]

/-- **Pipelines are responsive**, and they are done when all threads have terminated. -/
theorem configure_responsive (stages : Stages I O) (queueSize : ℕ) :
    Responsive (stages.configure (.new I queueSize)).pipeline stages.behaviour
      (stages.Closed queueSize) := by
  -- stage by stage, each with the channel behind it
  induction stages with
  | none =>
      refine ((syncChannel_responsive queueSize).stage
        (thread_stage fun t => ⟨some t, rfl⟩) queueSize).congr (fun xs => ?_) (fun xs => ?_) ?_
      · exact ((emitted_of_returns (fun _ => rfl) xs).trans List.filterMap_some).symm
      · simp [behaviour, Behaviour.comp, Behaviour.forward, Behaviour.total, each, Panics]
      · rintro s ⟨-, hdone⟩
        simpa [Closed, handles] using hdone
  | map stages f ih =>
      refine responsive_stage ih (thread_stage fun o => ⟨some (f o), rfl⟩) (fun o => rfl)
        (stages.semantics_map f) fun s hdone => ?_
      exact List.forall_mem_append.mpr ⟨hdone.1, by simpa using hdone.2⟩
  | filter stages f ih =>
      refine responsive_stage ih (thread_stage fun o => ⟨_, rfl⟩) (fun o => rfl)
        (stages.semantics_filter f) fun s hdone => ?_
      exact List.forall_mem_append.mpr ⟨hdone.1, by simpa using hdone.2⟩
  | filterMap stages f ih =>
      refine responsive_stage ih (thread_stage fun o => ⟨f o, rfl⟩) (fun o => rfl)
        (fun xs => rfl) fun s hdone => ?_
      exact List.forall_mem_append.mpr ⟨hdone.1, by simpa using hdone.2⟩
  | forkJoin stages workerFunction nLines join hlines ih =>
      have hline := ForkJoin.worker_responsive (f := fun o line => .ret (workerFunction o line))
        (fun o line => ⟨_, rfl⟩) (stages.configure (.new I queueSize)).queueSize
      refine responsive_stage ih (ForkJoin.lines_stage hline (ForkJoin.worker_separate _)
        (fun o line => ⟨_, rfl⟩) (fun outputs => ⟨join outputs, rfl⟩) hlines)
        (joined_of_returns workerFunction nLines join)
        (stages.semantics_forkJoin workerFunction join hlines)
        fun s hends => ?_
      -- the handles of a `fork_join` are those of its workers and of its two other threads
      obtain ⟨hdone, hdistributer, hgatherer, hworkers⟩ := hends
      refine List.forall_mem_append.mpr ⟨hdone, List.forall_mem_append.mpr ⟨?_, ?_⟩⟩
      · simpa [List.mem_ofFn] using hworkers
      · simpa using ⟨hdistributer, hgatherer⟩

end Stages

/-! ## Closing -/

theorem Thread.finished_of_item {f : I → Outcome (Option U)} {t t' : Thread U} {u : U}
    (hstep : Step f t (none, some (.item u)) t') : t'.finished = t.finished := by
  cases hstep
  rfl

theorem ForkJoin.handles_of_item {queueSize nLines : ℕ} {f : O → ℕ → Outcome L}
    {join : List L → Outcome U} {s s' : State O U (worker queueSize f) nLines} {u : U}
    (hstep : Step (worker queueSize f) join s (none, some (.item u)) s') :
    handles s' = handles s := by
  cases hstep
  rfl

/-- Receiving an item terminates no thread. -/
theorem Stages.handles_of_item (stages : Stages I O) (queueSize : ℕ)
    {s s' : (stages.configure (.new I queueSize)).pipeline.State} {x : O}
    (hstep : (stages.configure (.new I queueSize)).pipeline.step s (.none, some (.item x)) s') :
    stages.handles queueSize s' = stages.handles queueSize s := by
  cases stages with
  | none =>
      obtain ⟨hfirst, hlast | ⟨y, hlast⟩⟩ := thread_separate.of_item_step hstep
      · simp only [handles, hlast]
      · simp only [handles, Thread.finished_of_item hlast]
  | map stages f | filter stages f | filterMap stages f =>
      obtain ⟨hfirst, hlast | ⟨y, hlast⟩⟩ := thread_separate.of_item_step hstep
      · simp only [handles, hfirst, hlast]
      · simp only [handles, hfirst, Thread.finished_of_item hlast]
  | forkJoin stages workerFunction nLines join hlines =>
      obtain ⟨hfirst, hlast | ⟨y, hlast⟩⟩ := ForkJoin.lines_separate.of_item_step hstep
      · simp only [handles, hfirst, hlast]
      · simp only [handles, hfirst, ForkJoin.handles_of_item hlast]

/-! ## A pipeline whose input was dropped -/

/-- **Pipelines shut down.**  Once the senders of a pipeline were dropped, and while its
receiver takes every item or was dropped, too: as long as a thread is alive some thread can
move, if need be after items were received; every run has only finitely many steps, not
counting that the receiver sees the end again; and when no thread can move and nothing can be
received, all threads have terminated and `close` returns. -/
theorem pipeline_shuts_down (stages : Stages I O) (queueSize : ℕ)
    {trace : List ((stages.configure (.new I queueSize)).pipeline.State × Exchange I O)}
    {s : (stages.configure (.new I queueSize)).pipeline.State}
    (hrun : (stages.configure (.new I queueSize)).pipeline.Runs trace s)
    (hdropped : .eof ∈ inputs trace) :
    (false ∈ stages.handles queueSize s → ∃ rest t,
      Run (stages.configure (.new I queueSize)).pipeline.step s rest t ∧
      (∀ p ∈ rest, .hangup ∉ outputs trace ∧ ∃ x, p.2 = (none, some (.item x))) ∧
      ∃ t', (stages.configure (.new I queueSize)).pipeline.step t (none, none) t') ∧
    (∃ bound, ∀ rest t, Run (stages.configure (.new I queueSize)).pipeline.step s rest t →
      (rest.countP fun p => !p.2.2.any Signal.isEof) ≤ bound) ∧
    ∀ rest t, Run (stages.configure (.new I queueSize)).pipeline.step s rest t →
      (∀ t', ¬ (stages.configure (.new I queueSize)).pipeline.step t (none, none) t') →
      (.hangup ∉ outputs (trace ++ rest) → ∀ x t',
        ¬ (stages.configure (.new I queueSize)).pipeline.step t (none, some (.item x)) t') →
      (∀ terminated ∈ stages.handles queueSize t, terminated = true) ∧
        Pipeline.close (stages.handles queueSize t) = some () := by
  have hresponsive := stages.configure_responsive queueSize
  have hrank := stages.configure_hasRank queueSize
  refine ⟨fun halive => ?_, hresponsive.exists_bound hrank hrun hdropped,
    fun rest t hrest hstuck hreceived => ?_⟩
  · obtain ⟨cost, rank, hranked⟩ := hrank 0
    have hopen : ¬ stages.Closed queueSize s := fun hclosed => by cases hclosed false halive
    obtain ⟨rest, t, hrest, hdrains, hheld, hmoves⟩ :=
      hresponsive.exists_drained hranked (fun hstep hclosed => by
        rw [Stages.Closed, stages.handles_of_item queueSize hstep] at hclosed
        exact hclosed) hrun hdropped hopen
    refine ⟨rest, t, hrest, fun p hp => ⟨hheld (List.ne_nil_of_mem hp), hdrains p hp⟩, ?_⟩
    simpa [Component.Stuck] using hmoves
  · have hclosed : stages.Closed queueSize t := by
      by_contra hopen
      have heof : .eof ∈ inputs (trace ++ rest) := by
        rw [inputs_append]
        exact List.mem_append_left _ hdropped
      rcases hresponsive.moves (hrun.append hrest) heof hopen with hmoves | ⟨hheld, x, t', hstep⟩
      · exact hmoves hstuck
      · exact hreceived hheld x t' hstep
    exact ⟨hclosed, Pipeline.close_eq_some hclosed⟩

/-- The sender of two lines between channels of size 0 is dropped while one item is with the
first line and the distributer, and another one with the first thread.  No thread has
terminated, some thread can move, and `close` can return. -/
theorem pipeline_shuts_down_twoLines :
    ∃ trace s, (twoLines.configure (.new ℕ 0)).pipeline.Runs trace s ∧
      items (inputs trace) = [3, 5] ∧ items (outputs trace) = [] ∧
      twoLines.handles 0 s = [false, false, false, false, false] ∧
      (∃ rest t t', Run (twoLines.configure (.new ℕ 0)).pipeline.step s rest t ∧
        (twoLines.configure (.new ℕ 0)).pipeline.step t (none, none) t') ∧
      ∃ rest t, Run (twoLines.configure (.new ℕ 0)).pipeline.step s rest t ∧
        Pipeline.close (twoLines.handles 0 t) = some () := by
  have start : (twoLines.configure (.new ℕ 0)).pipeline.Runs []
      ((⟨[], true, true⟩, .waiting, ⟨[], true, true⟩),
        ⟨.waiting, fun _ => (⟨[], true, true⟩, .waiting, ⟨[], true, true⟩), .gathering []⟩,
        ⟨[], true, true⟩) := .nil
  have hsent := (((start.snoc
    (.left (.both (.handOver (x := 3) rfl) (.left (.produce rfl))))).snoc
    (.both (.right (.both .send (.handOver rfl))) (.left .receive))).snoc
    (.right (.left (.distribute (k := 0) (.both (.handOver rfl) (.left (.produce rfl))))))).snoc
    (.left (.both (.handOver (x := 5) rfl) (.left (.produce rfl))))
  have hrun := hsent.snoc (.left (.left .dropSender))
  obtain ⟨hmoves, ⟨bound, hbound⟩, hcloses⟩ :=
    pipeline_shuts_down twoLines 0 hrun (by simp [inputs])
  obtain ⟨rest, t, hrest, -, t', hstep⟩ := hmoves (by decide)
  refine ⟨_, _, hrun, rfl, rfl, by decide, ⟨rest, t, t', hrest, hstep⟩, ?_⟩
  -- a run with as many steps as possible ends where nothing can move
  obtain ⟨rest, t, hrest, hlongest⟩ := Run.exists_longest hbound
  refine ⟨rest, t, hrest, (hcloses rest t hrest (fun t' hstep => ?_) fun _ x t' hstep => ?_).2⟩
  · have hmore := hlongest _ _ (hrest.snoc hstep)
    rw [List.countP_append] at hmore
    exact absurd hmore (by simp)
  · have hmore := hlongest _ _ (hrest.snoc hstep)
    rw [List.countP_append] at hmore
    exact absurd hmore (by simp [Signal.isEof])

end RustCourse.Lesson07
