import RustCourse.Lesson07.JobsOnce
import RustCourse.Lesson07.Panics

/-!
# Jobs of the worker queue that panic

A job that panics ends the thread of its worker, and with it the receiver of its jobs: what
waited behind the job in the channel is lost.  The queue does not notice.  It goes on dealing
jobs in turn, and the owner finds out when it sends to the dead worker, when it waits for a
result and no worker is left, or when it joins the worker in `close`; each of these calls
unwraps, and panics.

Up to the first such call nothing else goes wrong (`panics_contained`).  The invariants are
those of a queue whose jobs return, worker by worker: a worker is either as it would be
there, or it is dead (`Sound`), and the books are kept for the living (`Tally`).
-/

namespace RustCourse.Lesson07.WorkerQueue

open Dataflow Transition Function

variable {T : Type} {n : ℕ}

/-! ## Jobs that panic -/

/-- A step of a queue whose jobs may panic.  What is left of the queue after a call of the
owner has panicked does no steps here. -/
inductive PanicStep (queueSize : ℕ) :
    State (Outcome T) n → Label (Outcome T) n → State (Outcome T) n → Prop
  | step {s l s'} : s.owner ≠ .panicked → (∀ k job, l = .execute k job → job () ≠ .panic) →
      Step queueSize s l s' → PanicStep queueSize s l s'
  /-- unwinding drops `jobs_rx` -/
  | jobPanics {owner x workers results job} {k : Fin n} {channel} : owner ≠ .panicked →
      (workers k).phase = .running job → job () = .panic →
      SyncChannel.Step queueSize (workers k).channel (none, some .hangup) channel →
      PanicStep queueSize ⟨owner, x, workers, results⟩ (.execute k job)
        ⟨owner, x, update workers k ⟨channel, .panicked⟩, results⟩

/-- A step in which no job is called. -/
theorem PanicStep.quiet {queueSize : ℕ} {s s' : State (Outcome T) n} {l : Label (Outcome T) n}
    (howner : s.owner ≠ .panicked) (hexecuted : l.executed = none)
    (hstep : Step queueSize s l s') : PanicStep queueSize s l s' := by
  refine .step howner (fun k job hl => ?_) hstep
  rw [hl] at hexecuted
  cases hexecuted

/-! ## The dead and the living -/

/-- A worker whose job has panicked. -/
structure Worker.Dead (alive : Bool) (worker : Worker T) : Prop where
  phase : worker.phase = .panicked
  channel : worker.channel = ⟨[], alive, false⟩

section Worker

variable {queueSize : ℕ} {alive : Bool} {worker : Worker T} {channel : SyncChannel (Job T)}
  {job : Job T}

theorem Worker.Valid.dies (h : worker.Valid queueSize alive)
    (hchannel : SyncChannel.Step queueSize worker.channel (none, some .hangup) channel) :
    Worker.Dead alive ⟨channel, .panicked⟩ := by
  obtain ⟨state, phase⟩ := worker
  have hsender := h.sender
  cases hchannel
  exact ⟨rfl, by rw [← hsender]⟩

namespace Worker.Dead

private theorem not_send (h : worker.Dead alive) :
    ¬ SyncChannel.Step queueSize worker.channel (some (.item job), none) channel := by
  rw [h.channel]
  rintro ⟨⟩

theorem dropSender (h : worker.Dead alive)
    (hchannel : SyncChannel.Step queueSize worker.channel (some .eof, none) channel) :
    Dead false ⟨channel, worker.phase⟩ := by
  obtain ⟨hphase, hstate⟩ := h
  rw [hstate] at hchannel
  cases hchannel
  exact ⟨hphase, rfl⟩

end Worker.Dead

end Worker

/-- As long as the owner goes on, a worker is one of a queue whose jobs return, or dead; and
the owner panics only because of a worker that is. -/
structure Sound (queueSize : ℕ) (s : State T n) : Prop where
  workers : s.owner ≠ .panicked → ∀ k,
    (s.workers k).Valid queueSize (s.owner.sends k) ∨ (s.workers k).Dead (s.owner.sends k)
  owner : s.owner.Valid s.workers ∨ s.owner = .panicked ∧ ∃ k, (s.workers k).phase = .panicked
  nextWorker : s.nextWorker < n

namespace Sound

variable {queueSize : ℕ} {owner : Owner T} {x : ℕ} {workers : Fin n → Worker T}
  {results results' : List T} {k : Fin n} {worker : Worker T} {job : Job T}
  {channel : SyncChannel (Job T)}

theorem init (hn : 1 ≤ n) : Sound queueSize (init T n) where
  workers _ k := .inl ((Valid.init hn).workers k)
  owner := .inl trivial
  nextWorker := hn

theorem ownerValid {s : State T n} (h : Sound queueSize s) (howner : s.owner ≠ .panicked) :
    s.owner.Valid s.workers :=
  h.owner.resolve_right fun hpanicked => howner hpanicked.1

/-- Whoever has not panicked is as in a queue whose jobs return. -/
theorem valid (h : Sound queueSize ⟨owner, x, workers, results⟩) (howner : owner ≠ .panicked)
    (hphase : (workers k).phase ≠ .panicked) : (workers k).Valid queueSize (owner.sends k) :=
  (h.workers howner k).resolve_right fun hdead => hphase hdead.phase

/-- One worker moves, and the owner does not. -/
theorem work (h : Sound queueSize ⟨owner, x, workers, results⟩) (howner : owner ≠ .panicked)
    (hworker : worker.Valid queueSize (owner.sends k) ∨ worker.Dead (owner.sends k))
    (hended : (workers k).phase ≠ .ended) :
    Sound queueSize ⟨owner, x, update workers k worker, results'⟩ where
  workers _ := (forall_update_iff workers fun j w =>
    w.Valid queueSize (owner.sends j) ∨ w.Dead (owner.sends j)).mpr
      ⟨hworker, fun j _ => h.workers howner j⟩
  owner := .inl ((h.ownerValid howner).update fun hk => absurd hk hended)
  nextWorker := h.nextWorker

/-- The owner sends to a worker, which is alive then. -/
theorem sent (h : Sound queueSize ⟨.enqueuing k job, x, workers, results⟩)
    (hworker : worker.Valid queueSize true) :
    Sound queueSize ⟨.idle, x, update workers k worker, results⟩ where
  workers _ := (forall_update_iff workers fun _ w => w.Valid queueSize true ∨ w.Dead true).mpr
    ⟨.inl hworker, fun j _ => h.workers nofun j⟩
  owner := .inl trivial
  nextWorker := h.nextWorker

/-- A sender is dropped. -/
theorem dropped (h : Sound queueSize ⟨.dropping k, x, workers, results⟩)
    (hchannel : SyncChannel.Step queueSize (workers k).channel (some .eof, none) channel) :
    Sound queueSize
      ⟨.dropping (k + 1), x, update workers k ⟨channel, (workers k).phase⟩, results⟩ where
  workers _ := by
    have hgoing : (.dropping k : Owner T) ≠ .panicked := by simp
    refine (forall_update_iff workers fun j w =>
      w.Valid queueSize (Owner.sends j (.dropping (k + 1) : Owner T)) ∨
        w.Dead (Owner.sends j (.dropping (k + 1) : Owner T))).mpr ⟨?_, fun j hj => ?_⟩
    · have hdropped : Owner.sends k (.dropping (k + 1) : Owner T) = false := by
        simp [Owner.sends]
      rw [hdropped]
      exact (h.workers hgoing k).imp (fun hvalid => hvalid.dropSender hchannel)
        fun hdead => hdead.dropSender hchannel
    · have hsends : Owner.sends j (.dropping (k + 1) : Owner T) =
            Owner.sends j (.dropping k : Owner T) := by
        have : (k : ℕ) ≠ j := fun hkj => hj (Fin.ext hkj.symm)
        simp only [Owner.sends, decide_eq_decide]
        omega
      rw [hsends]
      exact h.workers hgoing j
  owner := .inl k.isLt
  nextWorker := h.nextWorker

variable {s s' : State (Outcome T) n} {l : Label (Outcome T) n}

theorem step (h : Sound queueSize s) (howner : s.owner ≠ .panicked)
    (hstep : Step queueSize s l s') : Sound queueSize s' := by
  have hn : 0 < n := Nat.zero_lt_of_lt h.nextWorker
  have hvalid := h.ownerValid howner
  cases hstep with
  | enqueue => exact ⟨fun _ => h.workers howner, .inl h.nextWorker, Nat.mod_lt _ hn⟩
  | enqueuePanics hzero => omega
  | @send x workers results job k channel hchannel =>
      exact h.sent (((h.workers howner k).resolve_right fun hdead =>
        hdead.not_send hchannel).send hchannel)
  | handOver hchannel hphase =>
      exact h.sent ((h.valid howner (by simp [hphase])).handOver hphase hchannel)
  | @sendPanics x workers results job k channel hchannel =>
      have hdead := (h.workers howner k).resolve_left fun hworker => hworker.not_sendFails hchannel
      exact ⟨fun hgone => absurd rfl hgone, .inr ⟨rfl, k, hdead.phase⟩, h.nextWorker⟩
  | indexPanics hindex => exact absurd hvalid (Nat.not_lt.mpr hindex)
  | nextResult | receive => exact ⟨fun _ => h.workers howner, .inl trivial, h.nextWorker⟩
  | receivePanics hphases =>
      -- a worker that has left its loop has no sender, but the owner still has them all
      refine ⟨fun hgone => absurd rfl hgone,
        .inr ⟨rfl, ⟨0, hn⟩, (hphases ⟨0, hn⟩).resolve_left fun hended => ?_⟩, h.nextWorker⟩
      cases ((h.valid howner (by simp [hended])).left (.inr hended)).2
  | close =>
      refine ⟨fun _ k => ?_, .inl (Nat.zero_le n), h.nextWorker⟩
      simpa [Owner.sends] using h.workers howner k
  | dropSender hchannel => exact h.dropped hchannel
  | dropped =>
      refine ⟨fun _ k => ?_, .inl fun k hk => absurd hk (Nat.not_lt_zero _), h.nextWorker⟩
      simpa [Owner.sends, Nat.not_le.mpr k.isLt] using h.workers howner k
  | @join x workers results k hphase =>
      refine ⟨fun _ => h.workers howner, .inl fun j hj => ?_, h.nextWorker⟩
      rcases Nat.lt_succ_iff_lt_or_eq.mp hj with hj | hj
      · exact hvalid j hj
      · rw [Fin.ext hj]
        exact hphase
  | @joinPanics x workers results k hphase =>
      exact ⟨fun hgone => absurd rfl hgone, .inr ⟨rfl, k, hphase⟩, h.nextWorker⟩
  | closed =>
      exact ⟨fun _ => h.workers howner, .inl fun k => hvalid k k.isLt, h.nextWorker⟩
  | recv hchannel hphase =>
      exact h.work howner (.inl ((h.valid howner (by simp [hphase])).recv hphase hchannel))
        (by simp [hphase])
  | execute hphase =>
      exact h.work howner (.inl ((h.valid howner (by simp [hphase])).execute hphase))
        (by simp [hphase])
  | sendResult _ hphase =>
      exact h.work howner (.inl ((h.valid howner (by simp [hphase])).sendResult hphase))
        (by simp [hphase])
  | @sendResultPanics x workers results result k channel hphase hchannel =>
      have hended := hvalid k
      rw [hphase] at hended
      cases hended
  | recvFails hchannel hphase =>
      exact h.work howner (.inl ((h.valid howner (by simp [hphase])).recvFails hphase hchannel))
        (by simp [hphase])
  | dropReceiver hchannel hphase =>
      exact h.work howner (.inl ((h.valid howner (by simp [hphase])).dropReceiver hphase hchannel))
        (by simp [hphase])

private theorem panicStep (h : Sound queueSize s) (hstep : PanicStep queueSize s l s') :
    Sound queueSize s' := by
  cases hstep with
  | step howner _ hstep => exact h.step howner hstep
  | @jobPanics owner x workers results job k channel howner hphase _ hchannel =>
      exact h.work howner (.inr ((h.valid howner (by simp [hphase])).dies hchannel))
        (by simp [hphase])

theorem run (hn : 1 ≤ n) {trace : List (State (Outcome T) n × Label (Outcome T) n)}
    (hrun : Run (PanicStep queueSize) (WorkerQueue.init (Outcome T) n) trace s) :
    Sound queueSize s :=
  hrun.invariant (.init hn) fun _ _ _ h hstep => h.panicStep hstep

end Sound

/-! ## The books of the living -/

/-- The results of the jobs that were called and returned. -/
def produced (done : List (Fin n × Job (Outcome T))) : List (Outcome T) :=
  (done.map fun p => p.2 ()).filter fun result => !result.isPanic

/-! ## The tally -/

/-- What has been done so far.  A worker is dead because of the last job it has called; of the
others nothing is lost. -/
structure Tally (calls : List (ℕ × Job (Outcome T))) (done : List (Fin n × Job (Outcome T)))
    (out : List (Outcome T)) (s : State (Outcome T) n) : Prop where
  counter : s.nextWorker = calls.length % n
  turns : ∀ k worker job, calls[k]? = some (worker, job) → worker = k % n
  flow : ∀ k : Fin n, (s.workers k).phase ≠ .panicked → jobsOf k done ++
    (s.workers k).phase.inHand ++ (s.workers k).channel.stored ++ s.owner.pending k =
      jobsOf k.val calls
  started : ∀ k : Fin n, jobsOf k done <+: jobsOf k.val calls
  dead : ∀ k, (s.workers k).phase = .panicked ↔ ∃ job ∈ jobsOf k done, job () = .panic
  last : ∀ k, ∀ job ∈ (jobsOf k done).dropLast, job () ≠ .panic
  results : (out ++ s.results ++ s.held).Perm (produced done)

section Held

variable {owner : Owner T} {x : ℕ} {workers : Fin n → Worker T} {results results' : List T}
  {k : Fin n} {result : T} {channel : SyncChannel (Job T)}

private theorem held_sending (hnone : (workers k).phase.held = none) :
    (⟨owner, x, update workers k ⟨channel, .sending result⟩, results⟩ : State T n).held.Perm
      (result :: (⟨owner, x, workers, results⟩ : State T n).held) := by
  rw [Exact.held_update]
  exact filterMap_update_perm hnone

private theorem held_sent (hphase : (workers k).phase = .sending result) :
    (result :: (⟨owner, x, update workers k ⟨channel, .waiting⟩, results'⟩ : State T n).held).Perm
      (⟨owner, x, workers, results⟩ : State T n).held := by
  have hheld := filterMap_update_perm (a := result)
    (update_self k none fun j => (workers j).phase.held)
  rw [update_idem, show some result = (workers k).phase.held by rw [hphase]; rfl,
    update_eq_self] at hheld
  rw [Exact.held_update]
  exact hheld.symm

end Held

private theorem produced_snoc (done : List (Fin n × Job (Outcome T))) (k : Fin n)
    (job : Job (Outcome T)) :
    produced (done ++ [(k, job)]) =
      produced done ++ if (job ()).isPanic then [] else [job ()] := by
  cases h : (job ()).isPanic <;> simp [produced, h]

namespace Tally

variable {calls : List (ℕ × Job (Outcome T))} {done : List (Fin n × Job (Outcome T))}
  {out : List (Outcome T)} {owner owner' : Owner (Outcome T)} {x : ℕ}
  {workers : Fin n → Worker (Outcome T)} {results : List (Outcome T)} {k : Fin n}
  {worker : Worker (Outcome T)} {job : Job (Outcome T)} {result : Outcome T}
  {channel : SyncChannel (Job (Outcome T))}

theorem init : Tally [] [] [] (init (Outcome T) n) where
  counter := (Nat.zero_mod n).symm
  turns k worker job h := by simp at h
  flow k _ := rfl
  started k := List.prefix_rfl
  dead k := by simp [WorkerQueue.init, jobsOf]
  last k job h := by simp [jobsOf] at h
  results := by simp [State.held, WorkerQueue.init, Phase.held, produced]

/-- The jobs of a worker that has not panicked have returned. -/
theorem returns (h : Tally calls done out ⟨owner, x, workers, results⟩)
    (hphase : (workers k).phase ≠ .panicked) : ∀ job ∈ jobsOf k done, job () ≠ .panic :=
  fun job hmem hpanic => hphase ((h.dead k).mpr ⟨job, hmem, hpanic⟩)

theorem enqueue (h : Tally calls done out ⟨.idle, x, workers, results⟩)
    (job : Job (Outcome T)) :
    Tally (calls ++ [(x, job)]) done out ⟨.enqueuing x job, (x + 1) % n, workers, results⟩ where
  counter := by
    have hcounter : x = calls.length % n := h.counter
    simp [hcounter]
  turns := by
    intro k worker job' hk
    rcases Nat.lt_trichotomy k calls.length with hlt | rfl | hgt
    · rw [List.getElem?_append_left hlt] at hk
      exact h.turns k worker job' hk
    · simp only [List.getElem?_concat_length, Option.some.injEq, Prod.mk.injEq] at hk
      exact hk.1 ▸ h.counter
    · rw [List.getElem?_eq_none (by simpa using Nat.succ_le_of_lt hgt)] at hk
      cases hk
  flow j hphase := by
    have hflow := h.flow j hphase
    simp only [Owner.pending, List.append_nil] at hflow ⊢
    rw [jobsOf_append, jobsOf_singleton, hflow]
  started j := (h.started j).trans (by simp)
  dead := h.dead
  last := h.last
  results := h.results

/-- The owner moves, and no job of a living worker does. -/
theorem owner_moves (h : Tally calls done out ⟨owner, x, workers, results⟩)
    (hpending : ∀ j : Fin n, (workers j).phase ≠ .panicked →
      owner'.pending j.val = owner.pending j.val) :
    Tally calls done out ⟨owner', x, workers, results⟩ where
  counter := h.counter
  turns := h.turns
  flow j hphase := by simpa only [hpending j hphase] using h.flow j hphase
  started := h.started
  dead := h.dead
  last := h.last
  results := h.results

/-- A worker's job moves on its way into the worker. -/
theorem worker_moves (h : Tally calls done out ⟨owner, x, workers, results⟩)
    (hphase : worker.phase = .panicked ↔ (workers k).phase = .panicked)
    (hflow : worker.phase ≠ .panicked →
      worker.phase.inHand ++ worker.channel.stored ++ owner'.pending k =
        (workers k).phase.inHand ++ (workers k).channel.stored ++ owner.pending k)
    (hpending : ∀ j, j ≠ k → owner'.pending j.val = owner.pending j.val)
    (hheld : worker.phase.held = (workers k).phase.held) :
    Tally calls done out ⟨owner', x, update workers k worker, results⟩ where
  counter := h.counter
  turns := h.turns
  flow := by
    refine (forall_update_iff workers fun j w => w.phase ≠ .panicked → jobsOf j done ++
      w.phase.inHand ++ w.channel.stored ++ owner'.pending j = jobsOf j.val calls).mpr
        ⟨fun hliving => ?_, fun j hj hliving => ?_⟩
    · rw [List.append_assoc, List.append_assoc, ← List.append_assoc worker.phase.inHand,
        hflow hliving]
      simpa only [List.append_assoc] using h.flow k fun hdead => hliving (hphase.mpr hdead)
    · simpa only [hpending j hj] using h.flow j hliving
  started := h.started
  dead := (forall_update_iff workers fun j w => w.phase = .panicked ↔
    ∃ job ∈ jobsOf j done, job () = .panic).mpr
      ⟨hphase.trans (h.dead k), fun j _ => h.dead j⟩
  last := h.last
  results := by
    rw [State.held, ← State.held, Exact.held_update, hheld, update_eq_self]
    exact h.results

/-- What a worker has called, the job it calls now included, is dealt to it. -/
theorem called (h : Tally calls done out ⟨owner, x, workers, results⟩)
    (hphase : (workers k).phase = .running job) (j : Fin n) :
    jobsOf j (done ++ [(k, job)]) <+: jobsOf j.val calls := by
  by_cases hj : k = j
  · subst hj
    have hflow := h.flow k (by simp [hphase])
    simp only [hphase, Phase.inHand] at hflow
    rw [jobsOf_append, jobsOf_singleton, if_pos rfl, ← hflow,
      List.append_assoc _ _ (owner.pending _)]
    exact List.prefix_append _ _
  · simpa [hj] using h.started j

theorem execute (h : Tally calls done out ⟨owner, x, workers, results⟩)
    (hphase : (workers k).phase = .running job) (hreturns : job () ≠ .panic) :
    Tally calls (done ++ [(k, job)]) out
      ⟨owner, x, update workers k ⟨(workers k).channel, .sending (job ())⟩, results⟩ where
  counter := h.counter
  turns := h.turns
  -- the job of worker `k` is executed instead of in its hand
  flow := by
    refine (forall_update_iff workers fun j w => w.phase ≠ .panicked →
      jobsOf j (done ++ [(k, job)]) ++ w.phase.inHand ++ w.channel.stored ++ owner.pending j =
        jobsOf j.val calls).mpr ⟨fun _ => ?_, fun j hj hliving => ?_⟩
    · simpa [hphase, Phase.inHand] using h.flow k (by simp [hphase])
    · simpa [hj.symm] using h.flow j hliving
  started := h.called hphase
  dead := by
    refine (forall_update_iff workers fun j w => w.phase = .panicked ↔
      ∃ job' ∈ jobsOf j (done ++ [(k, job)]), job' () = .panic).mpr ⟨?_, fun j hj => ?_⟩
    · have hfine := h.returns (k := k) (by simp [hphase])
      simpa [or_imp, forall_and, hreturns] using hfine
    · simpa [hj.symm] using h.dead j
  -- only the last job of a worker can have panicked, and this one has not
  last j := by
    by_cases hj : k = j
    · subst hj
      simpa using h.returns (k := k) (by simp [hphase])
    · simpa [hj] using h.last j
  results := by
    have hnone : (workers k).phase.held = none := by simp [hphase, Phase.held]
    have hresult : (job ()).isPanic = false := by
      rw [← Bool.not_eq_true, Outcome.isPanic_iff]
      exact hreturns
    rw [produced_snoc, hresult, if_neg Bool.false_ne_true]
    refine ((held_sending hnone).append_left _).trans (List.perm_middle.trans ?_)
    exact (List.perm_append_singleton (job ()) _).symm.trans (h.results.append_right _)

/-- The worker of a job that panics is dead. -/
theorem dies (h : Tally calls done out ⟨owner, x, workers, results⟩)
    (hphase : (workers k).phase = .running job) (hpanic : job () = .panic) :
    Tally calls (done ++ [(k, job)]) out
      ⟨owner, x, update workers k ⟨channel, .panicked⟩, results⟩ where
  counter := h.counter
  turns := h.turns
  -- the books are not kept for a worker that is dead
  flow := by
    refine (forall_update_iff workers fun j w => w.phase ≠ .panicked →
      jobsOf j (done ++ [(k, job)]) ++ w.phase.inHand ++ w.channel.stored ++ owner.pending j =
        jobsOf j.val calls).mpr ⟨fun hliving => absurd rfl hliving, fun j hj hliving => ?_⟩
    simpa [hj.symm] using h.flow j hliving
  started := h.called hphase
  dead := by
    refine (forall_update_iff workers fun j w => w.phase = .panicked ↔
      ∃ job' ∈ jobsOf j (done ++ [(k, job)]), job' () = .panic).mpr ⟨?_, fun j hj => ?_⟩
    · simp [hpanic]
    · simpa [hj.symm] using h.dead j
  last j := by
    by_cases hj : k = j
    · subst hj
      simpa using h.returns (k := k) (by simp [hphase])
    · simpa [hj] using h.last j
  results := by
    have hnone : (workers k).phase.held = none := by simp [hphase, Phase.held]
    -- a job that panics has no result
    rw [produced_snoc, Outcome.isPanic_iff.mpr hpanic, if_pos rfl, List.append_nil,
      Exact.held_update]
    have hsame : update (fun j => (workers j).phase.held) k (Phase.panicked : Phase _).held =
        fun j => (workers j).phase.held := by
      rw [show (Phase.panicked : Phase (Outcome T)).held = none from rfl, ← hnone, update_eq_self]
    rw [hsame]
    exact h.results

theorem sendResult (h : Tally calls done out ⟨owner, x, workers, results⟩)
    (hphase : (workers k).phase = .sending result) :
    Tally calls done out
      ⟨owner, x, update workers k ⟨(workers k).channel, .waiting⟩, results ++ [result]⟩ where
  counter := h.counter
  turns := h.turns
  flow := by
    refine (forall_update_iff workers fun j w => w.phase ≠ .panicked → jobsOf j done ++
      w.phase.inHand ++ w.channel.stored ++ owner.pending j = jobsOf j.val calls).mpr
        ⟨fun _ => ?_, fun j _ hliving => h.flow j hliving⟩
    simpa [hphase, Phase.inHand] using h.flow k (by simp [hphase])
  started := h.started
  dead := by
    refine (forall_update_iff workers fun j w => w.phase = .panicked ↔
      ∃ job ∈ jobsOf j done, job () = .panic).mpr ⟨?_, fun j _ => h.dead j⟩
    rw [← h.dead k]
    simp [hphase]
  last := h.last
  results := by
    refine List.Perm.trans ?_ h.results
    simpa using (((held_sent hphase).append_left results).append_left out)

theorem receive (h : Tally calls done out ⟨.receiving, x, workers, result :: results⟩) :
    Tally calls done (out ++ [result]) ⟨.idle, x, workers, results⟩ where
  counter := h.counter
  turns := h.turns
  flow j hphase := h.flow j hphase
  started := h.started
  dead := h.dead
  last := h.last
  results := by simpa [State.held] using h.results

variable {queueSize : ℕ} {trace : List (State (Outcome T) n × Label (Outcome T) n)}
  {s s' : State (Outcome T) n} {l : Label (Outcome T) n}

/-- A step that calls nothing and returns nothing. -/
theorem silent (h : Tally (assigned trace) (executed trace) (returned trace) s')
    (hassigned : l.assigned = none) (hexecuted : l.executed = none) (hresult : l.result = none) :
    Tally (assigned (trace ++ [(s, l)])) (executed (trace ++ [(s, l)]))
      (returned (trace ++ [(s, l)])) s' := by
  simpa [hassigned, hexecuted, hresult] using h

theorem step (h : Tally (assigned trace) (executed trace) (returned trace) s)
    (hsound : Sound queueSize s) (howner : s.owner ≠ .panicked)
    (hreturns : ∀ k job, l = .execute k job → job () ≠ .panic) (hstep : Step queueSize s l s') :
    Tally (assigned (trace ++ [(s, l)])) (executed (trace ++ [(s, l)]))
      (returned (trace ++ [(s, l)])) s' := by
  cases hstep with
  | @enqueue x workers results job =>
      simpa [Label.assigned, Label.executed, Label.result] using h.enqueue job
  | enqueuePanics hzero => exact absurd hsound.nextWorker (by simp [hzero])
  | @send x workers results job k channel hchannel =>
      refine silent (h.worker_moves Iff.rfl (fun _ => ?_) ?_ rfl) rfl rfl rfl
      · simp [Owner.pending, SyncChannel.stored_of_send hchannel]
      · intro j hj
        simp [Owner.pending, Fin.val_ne_of_ne hj.symm]
  | @handOver x workers results job k channel hchannel hphase =>
      refine silent (h.worker_moves (by simp [hphase]) (fun _ => ?_) ?_
        (by simp [hphase, Phase.held])) rfl rfl rfl
      · simp [Owner.pending, hphase, Phase.inHand, SyncChannel.stored_of_handOver hchannel]
      · intro j hj
        simp [Owner.pending, Fin.val_ne_of_ne hj.symm]
  | @sendPanics x workers results job k channel hchannel =>
      -- the job is lost, and it was for a dead worker
      have hdead := (hsound.workers howner k).resolve_left fun hworker =>
        hworker.not_sendFails hchannel
      refine silent (h.owner_moves fun j hliving => ?_) rfl rfl rfl
      have hne : k.val ≠ j.val := by
        intro heq
        rw [← Fin.ext heq] at hliving
        exact hliving hdead.phase
      simp [Owner.pending, hne]
  | indexPanics hindex =>
      exact absurd (hsound.ownerValid howner) (Nat.not_lt.mpr hindex)
  | nextResult | receivePanics | close | dropped | join | joinPanics | closed =>
      exact silent (h.owner_moves fun _ _ => rfl) rfl rfl rfl
  | receive => simpa [Label.assigned, Label.executed, Label.result] using h.receive
  | @dropSender x workers results k channel hchannel =>
      refine silent (h.worker_moves Iff.rfl (fun _ => ?_) (fun _ _ => rfl) rfl) rfl rfl rfl
      simp [Owner.pending, SyncChannel.stored_of_dropSender hchannel]
  | @recv owner x workers results job k channel hchannel hphase =>
      refine silent (h.worker_moves (by simp [hphase]) (fun _ => ?_) (fun _ _ => rfl)
        (by simp [hphase, Phase.held])) rfl rfl rfl
      simp [hphase, Phase.inHand, SyncChannel.stored_of_recv hchannel]
  | execute hphase =>
      simpa [Label.assigned, Label.executed, Label.result] using
        h.execute hphase (hreturns _ _ rfl)
  | sendResult _ hphase => exact silent (h.sendResult hphase) rfl rfl rfl
  | @sendResultPanics x workers results result k channel hphase hchannel =>
      have hended := hsound.ownerValid howner k
      rw [hphase] at hended
      cases hended
  | @recvFails owner x workers results k channel hchannel hphase =>
      refine silent (h.worker_moves (by simp [hphase]) (fun _ => ?_) (fun _ _ => rfl)
        (by simp [hphase, Phase.held])) rfl rfl rfl
      simp [hphase, Phase.inHand, SyncChannel.stored_of_recvFails hchannel]
  | @dropReceiver owner x workers results k channel hchannel hphase =>
      refine silent (h.worker_moves (by simp [hphase]) (fun _ => ?_) (fun _ _ => rfl)
        (by simp [hphase, Phase.held])) rfl rfl rfl
      have hempty : (workers k).channel.stored = [] :=
        ((hsound.valid howner (by simp [hphase])).left (.inl hphase)).1
      simp [hphase, Phase.inHand, SyncChannel.stored_of_dropReceiver hchannel, hempty]

theorem run (hn : 1 ≤ n)
    (hrun : Run (PanicStep queueSize) (WorkerQueue.init (Outcome T) n) trace s) :
    Tally (assigned trace) (executed trace) (returned trace) s := by
  refine hrun.invariantTrace (I := fun trace s =>
    Tally (assigned trace) (executed trace) (returned trace) s) .init ?_
  intro trace s l s' hrun h hstep
  have hsound := Sound.run hn hrun
  cases hstep with
  | step howner hreturns hstep => exact h.step hsound howner hreturns hstep
  | jobPanics _ hphase hpanic _ =>
      simpa [Label.assigned, Label.executed, Label.result] using h.dies hphase hpanic

end Tally

section End

variable {queueSize : ℕ} {trace : List (State (Outcome T) n × Label (Outcome T) n)}
  {s : State (Outcome T) n}

private theorem mem_jobsOf_executed {k : Fin n} {job : Job (Outcome T)} :
    job ∈ jobsOf k (executed trace) ↔ (k, job) ∈ executed trace := by
  simp [jobsOf]

/-- A call of the owner panics because a job has. -/
theorem panic_of_panicked (hn : 1 ≤ n)
    (hrun : Run (PanicStep queueSize) (init (Outcome T) n) trace s) (howner : s.owner = .panicked) :
    ∃ p ∈ executed trace, p.2 () = .panic := by
  obtain ⟨-, k, hdead⟩ := (Sound.run hn hrun).owner.resolve_left (by
    rw [howner]
    exact id)
  obtain ⟨job, hjob, hpanic⟩ := ((Tally.run hn hrun).dead k).mp hdead
  exact ⟨(k, job), mem_jobsOf_executed.mp hjob, hpanic⟩

/-- After `close` every job has been called, and has returned. -/
theorem executed_of_closed (hn : 1 ≤ n)
    (hrun : Run (PanicStep queueSize) (init (Outcome T) n) trace s) (howner : s.owner = .closed) :
    (∀ p ∈ executed trace, p.2 () ≠ .panic) ∧
      ((executed trace).map fun p => (p.1.val, p.2)).Perm (assigned trace) := by
  have hsound := Sound.run hn hrun
  have htally := Tally.run hn hrun
  have hgoing : s.owner ≠ .panicked := by simp [howner]
  have hended : ∀ k, (s.workers k).phase = .ended := by
    have hvalid := hsound.ownerValid hgoing
    rwa [howner] at hvalid
  refine ⟨?_, executed_perm ?_ fun k => ?_⟩
  · rintro ⟨k, job⟩ hjob hpanic
    have hdead := (htally.dead k).mpr ⟨job, mem_jobsOf_executed.mpr hjob, hpanic⟩
    rw [hended k] at hdead
    cases hdead
  · rintro ⟨worker, job⟩ hcall
    obtain ⟨k, hk, hget⟩ := List.mem_iff_getElem.mp hcall
    rw [htally.turns k worker job (List.getElem?_eq_some_iff.mpr ⟨hk, hget⟩)]
    exact Nat.mod_lt _ hn
  · have hliving : (s.workers k).phase ≠ .panicked := by simp [hended k]
    have hworker := (hsound.workers hgoing k).resolve_right fun hdead => hliving hdead.phase
    have hflow := htally.flow k hliving
    rw [hended k, (hworker.left (.inr (hended k))).1, howner] at hflow
    simpa [Phase.inHand, Owner.pending] using hflow

end End

/-! ## Up to the first panic of the owner -/

/-- **A job that panics** takes its worker with it, and nothing else.  In every run of a queue
of `n` workers, up to the first call of the owner that panics: jobs go to the workers in turn;
a worker calls the jobs it was given in their order, and none after one that panicked; a worker
of which no job panicked has them all, called, in hand, in its channel, or `enqueue` is blocked
with it; the results returned, those in the channel and those that workers are about to send
are together the results of the jobs that returned; a call of the owner panics only when a job
has; and `close` returns only if no job has, and every job was called once. -/
theorem panics_contained (hn : 1 ≤ n) (queueSize : ℕ)
    {trace : List (State (Outcome T) n × Label (Outcome T) n)} {s : State (Outcome T) n}
    (hrun : Run (PanicStep queueSize) (init (Outcome T) n) trace s) :
    (∀ k worker job, (assigned trace)[k]? = some (worker, job) → worker = k % n) ∧
      (∀ k : Fin n, jobsOf k (executed trace) <+: jobsOf k.val (assigned trace) ∧
        ∀ job ∈ (jobsOf k (executed trace)).dropLast, job () ≠ .panic) ∧
      (∀ k : Fin n, (∀ job ∈ jobsOf k (executed trace), job () ≠ .panic) →
        jobsOf k (executed trace) ++ (s.workers k).phase.inHand ++
          (s.workers k).channel.stored ++ s.owner.pending k = jobsOf k.val (assigned trace)) ∧
      (returned trace ++ s.results ++ s.held).Perm (produced (executed trace)) ∧
      (s.owner = .panicked → ∃ p ∈ executed trace, p.2 () = .panic) ∧
      (s.owner = .closed → (∀ p ∈ executed trace, p.2 () ≠ .panic) ∧
        ((executed trace).map fun p => (p.1.val, p.2)).Perm (assigned trace)) := by
  have htally := Tally.run hn hrun
  refine ⟨htally.turns, fun k => ⟨htally.started k, htally.last k⟩, fun k hfine => ?_,
    htally.results, panic_of_panicked hn hrun, executed_of_closed hn hrun⟩
  refine htally.flow k fun hdead => ?_
  obtain ⟨job, hjob, hpanic⟩ := (htally.dead k).mp hdead
  exact hfine job hjob hpanic

/-- The first of two workers dies, the other one goes on, and `close` panics. -/
theorem panics_contained_two :
    ∃ trace s, Run (PanicStep 1) (init (Outcome ℕ) 2) trace s ∧ s.owner = .panicked ∧
      returned trace = [.ret 7] ∧ ∃ p ∈ executed trace, p.2 () = .panic := by
  have start : Run (PanicStep 1) (init (Outcome ℕ) 2) [] (init (Outcome ℕ) 2) := .nil
  have hfirst := (start.snoc (l := .enqueue 0 fun _ => .panic)
    (.quiet nofun rfl (.enqueue Nat.two_pos))).snoc
      (.quiet nofun rfl (.send (k := 0) (.send (by decide))))
  have hdead := (hfirst.snoc (.quiet nofun rfl (.recv (k := 0) .recv rfl))).snoc
    (.jobPanics (k := 0) nofun rfl rfl .dropReceiver)
  have hsecond := (hdead.snoc (l := .enqueue 1 fun _ => .ret 7)
    (.quiet nofun rfl (.enqueue Nat.two_pos))).snoc
      (.quiet nofun rfl (.send (k := 1) (.send (by decide))))
  have hcalled := (hsecond.snoc (.quiet nofun rfl (.recv (k := 1) .recv rfl))).snoc
    (.step nofun (by rintro _ _ ⟨⟩; simp) (.execute (k := 1) rfl))
  have hdone := ((hcalled.snoc (.quiet nofun rfl (.sendResult (k := 1) nofun rfl))).snoc
    (.quiet nofun rfl .nextResult)).snoc (.quiet nofun rfl .receive)
  have hdropped := (((hdone.snoc (.quiet nofun rfl .close)).snoc
    (.quiet nofun rfl (.dropSender (k := 0) .dropSender))).snoc
      (.quiet nofun rfl (.dropSender (k := 1) .dropSender))).snoc (.quiet nofun rfl .dropped)
  have hrun := hdropped.snoc (.quiet nofun rfl (.joinPanics (k := 0) rfl))
  exact ⟨_, _, hrun, rfl, rfl, (panics_contained Nat.one_lt_two.le 1 hrun).2.2.2.2.1 rfl⟩

end RustCourse.Lesson07.WorkerQueue
