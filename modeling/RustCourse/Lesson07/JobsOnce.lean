import Mathlib.Data.List.Count
import RustCourse.Lesson07.WorkerQueue

/-!
# Every job of the worker queue is done once

Two invariants of a run.  `Valid` is about the parties: a worker leaves its loop only when
its sender was dropped and its channel is empty, and the receiver of the results lives until
all workers were joined, so that nobody panics.  `Exact` is about the jobs and results, and
says of each where it is.

That a blocked `enqueue` can go on is read off a state: its worker needs at most a call and a
send to be back in `recv`, and there it either takes a job from its full channel or, with
queue size 0, the job itself.
-/

namespace RustCourse.Lesson07.WorkerQueue

open Dataflow Transition Function

variable {T : Type} {n : ℕ}

/-! ## Nobody panics -/

/-- What holds of a worker; `alive` says that the owner still has its sender. -/
structure Worker.Valid (queueSize : ℕ) (alive : Bool) (worker : Worker T) : Prop where
  sender : worker.channel.sender = alive
  receiver : worker.phase ≠ .ended → worker.channel.receiver = true
  bounded : worker.channel.stored.length ≤ queueSize
  left : worker.phase = .leaving ∨ worker.phase = .ended →
    worker.channel.stored = [] ∧ alive = false
  returns : worker.phase ≠ .panicked

section Worker

variable {queueSize : ℕ} {alive : Bool} {worker : Worker T} {channel : SyncChannel (Job T)}
  {job : Job T} {result : T}

namespace Worker.Valid

theorem send (h : worker.Valid queueSize alive)
    (hchannel : SyncChannel.Step queueSize worker.channel (some (.item job), none) channel) :
    Valid queueSize alive ⟨channel, worker.phase⟩ := by
  obtain ⟨_, phase⟩ := worker
  obtain ⟨sender, receiver, bounded, left, returns⟩ := h
  cases hchannel with
  | send hroom =>
      refine ⟨sender, receiver, by simpa using Nat.succ_le_of_lt hroom, fun hleft => ?_, returns⟩
      -- nothing can be sent to a worker out of its loop, which has no sender
      have hclosed := (left hleft).2
      simp_all

theorem handOver (h : worker.Valid queueSize alive) (hphase : worker.phase = .waiting)
    (hchannel : SyncChannel.Step queueSize worker.channel (some (.item job), some (.item job))
      channel) :
    Valid queueSize alive ⟨channel, .running job⟩ := by
  obtain ⟨_, phase⟩ := worker
  obtain ⟨sender, receiver, bounded, left, returns⟩ := h
  cases hchannel
  constructor <;> simp_all

theorem dropSender (h : worker.Valid queueSize alive)
    (hchannel : SyncChannel.Step queueSize worker.channel (some .eof, none) channel) :
    Valid queueSize false ⟨channel, worker.phase⟩ := by
  obtain ⟨_, phase⟩ := worker
  obtain ⟨sender, receiver, bounded, left, returns⟩ := h
  cases hchannel
  constructor <;> simp_all

theorem recv (h : worker.Valid queueSize alive) (hphase : worker.phase = .waiting)
    (hchannel : SyncChannel.Step queueSize worker.channel (none, some (.item job)) channel) :
    Valid queueSize alive ⟨channel, .running job⟩ := by
  obtain ⟨_, phase⟩ := worker
  obtain ⟨sender, receiver, bounded, left, returns⟩ := h
  cases hchannel
  constructor <;> simp_all
  omega

theorem execute (h : worker.Valid queueSize alive) (hphase : worker.phase = .running job) :
    Valid queueSize alive ⟨worker.channel, .sending (job ())⟩ := by
  obtain ⟨sender, receiver, bounded, left, returns⟩ := h
  constructor <;> simp_all

theorem sendResult (h : worker.Valid queueSize alive) (hphase : worker.phase = .sending result) :
    Valid queueSize alive ⟨worker.channel, .waiting⟩ := by
  obtain ⟨sender, receiver, bounded, left, returns⟩ := h
  constructor <;> simp_all

theorem recvFails (h : worker.Valid queueSize alive) (hphase : worker.phase = .waiting)
    (hchannel : SyncChannel.Step queueSize worker.channel (none, some .eof) channel) :
    Valid queueSize alive ⟨channel, .leaving⟩ := by
  obtain ⟨_, phase⟩ := worker
  obtain ⟨sender, receiver, bounded, left, returns⟩ := h
  cases hchannel
  constructor <;> simp_all

theorem dropReceiver (h : worker.Valid queueSize alive) (hphase : worker.phase = .leaving)
    (hchannel : SyncChannel.Step queueSize worker.channel (none, some .hangup) channel) :
    Valid queueSize alive ⟨channel, .ended⟩ := by
  obtain ⟨_, phase⟩ := worker
  obtain ⟨sender, receiver, bounded, left, returns⟩ := h
  cases hchannel
  constructor <;> simp_all

/-- A worker whose sender is there has its receiver. -/
theorem receives (h : worker.Valid queueSize true) : worker.channel.receiver = true :=
  h.receiver fun hended => by cases (h.left (.inr hended)).2

theorem not_sendFails (h : worker.Valid queueSize true) :
    ¬ SyncChannel.Step queueSize worker.channel (some .hangup, none) channel := by
  have hreceiver := h.receives
  obtain ⟨_, phase⟩ := worker
  intro hchannel
  cases hchannel
  cases hreceiver

end Worker.Valid

end Worker

/-! ## The owner -/

/-- The owner still has the sender of a worker's jobs. -/
def Owner.sends (worker : ℕ) : Owner T → Bool
  | idle | enqueuing _ _ | receiving => true
  | dropping k => k ≤ worker
  | joining _ | closed | panicked => false

/-- What holds of the owner: it has chosen one of the workers, and the workers it has joined
have ended. -/
def Owner.Valid (workers : Fin n → Worker T) : Owner T → Prop
  | idle | receiving => True
  | enqueuing worker _ => worker < n
  | dropping worker => worker ≤ n
  | joining worker => ∀ k : Fin n, k.val < worker → (workers k).phase = .ended
  | closed => ∀ k, (workers k).phase = .ended
  | panicked => False

/-- A worker that has ended stays so when another one moves. -/
theorem Owner.Valid.update {owner : Owner T} {workers : Fin n → Worker T} {k : Fin n}
    {worker : Worker T} (h : owner.Valid workers)
    (hk : (workers k).phase = .ended → worker.phase = .ended) :
    owner.Valid (update workers k worker) := by
  have hended : ∀ j, (workers j).phase = .ended →
      (Function.update workers k worker j).phase = .ended := by
    intro j hj
    by_cases hjk : j = k
    · subst hjk
      rw [update_self]
      exact hk hj
    · rwa [update_of_ne hjk]
  cases owner with
  | joining worker => exact fun j hj => hended j (h j hj)
  | closed => exact fun j => hended j (h j)
  | _ => exact h

structure Valid (queueSize : ℕ) (s : State T n) : Prop where
  workers : ∀ k, (s.workers k).Valid queueSize (s.owner.sends k)
  owner : s.owner.Valid s.workers
  nextWorker : s.nextWorker < n

namespace Valid

variable {queueSize : ℕ} {s s' : State T n} {l : Label T n}

theorem init (hn : 1 ≤ n) : Valid queueSize (init T n) where
  workers k := by constructor <;> simp [WorkerQueue.init, Owner.sends]
  owner := trivial
  nextWorker := hn

/-- One worker moves, and the owner does not. -/
theorem work {owner : Owner T} {x : ℕ} {workers : Fin n → Worker T} {results results' : List T}
    {k : Fin n} {worker : Worker T} (h : Valid queueSize ⟨owner, x, workers, results⟩)
    (hworker : worker.Valid queueSize (owner.sends k))
    (hended : (workers k).phase ≠ .ended) :
    Valid queueSize ⟨owner, x, update workers k worker, results'⟩ where
  workers := (forall_update_iff workers fun j w => w.Valid queueSize (owner.sends j)).mpr
    ⟨hworker, fun j _ => h.workers j⟩
  owner := h.owner.update fun hk => absurd hk hended
  nextWorker := h.nextWorker

theorem step (h : Valid queueSize s) (hstep : Step queueSize s l s') : Valid queueSize s' := by
  have hn : 0 < n := Nat.zero_lt_of_lt h.nextWorker
  cases hstep with
  | enqueue => exact ⟨h.workers, h.nextWorker, Nat.mod_lt _ hn⟩
  | enqueuePanics hzero => omega
  | @send x workers results job k channel hchannel =>
      refine ⟨?_, trivial, h.nextWorker⟩
      exact (forall_update_iff workers fun j w => w.Valid queueSize true).mpr
        ⟨(h.workers k).send hchannel, fun j _ => h.workers j⟩
  | @handOver x workers results job k channel hchannel hphase =>
      refine ⟨?_, trivial, h.nextWorker⟩
      exact (forall_update_iff workers fun j w => w.Valid queueSize true).mpr
        ⟨(h.workers k).handOver hphase hchannel, fun j _ => h.workers j⟩
  | @sendPanics x workers results job k channel hchannel =>
      exact absurd hchannel (h.workers k).not_sendFails
  | indexPanics hindex => exact absurd h.owner (Nat.not_lt.mpr hindex)
  | nextResult => exact ⟨h.workers, trivial, h.nextWorker⟩
  | receive => exact ⟨h.workers, trivial, h.nextWorker⟩
  | receivePanics hphases =>
      -- the first worker is in its loop, since the owner still has its sender
      rcases hphases ⟨0, hn⟩ with hended | hpanicked
      · cases ((h.workers ⟨0, hn⟩).left (.inr hended)).2
      · exact absurd hpanicked (h.workers _).returns
  | close =>
      refine ⟨fun k => ?_, Nat.zero_le n, h.nextWorker⟩
      simpa [Owner.sends] using h.workers k
  | @dropSender x workers results k channel hchannel =>
      refine ⟨?_, k.isLt, h.nextWorker⟩
      refine (forall_update_iff workers fun j w =>
        w.Valid queueSize (Owner.sends j (.dropping (k + 1) : Owner T))).mpr ⟨?_, fun j hj => ?_⟩
      · simpa [Owner.sends, Nat.not_succ_le_self] using (h.workers k).dropSender hchannel
      · have hsends : Owner.sends j (.dropping (k + 1) : Owner T) =
              Owner.sends j (.dropping k : Owner T) := by
          have : (k : ℕ) ≠ j := fun hkj => hj (Fin.ext hkj.symm)
          simp only [Owner.sends, decide_eq_decide]
          omega
        exact hsends ▸ h.workers j
  | dropped =>
      refine ⟨fun k => ?_, fun k hk => absurd hk (Nat.not_lt_zero _), h.nextWorker⟩
      simpa [Owner.sends, Nat.not_le.mpr k.isLt] using h.workers k
  | @join x workers results k hphase =>
      refine ⟨h.workers, fun j hj => ?_, h.nextWorker⟩
      rcases Nat.lt_succ_iff_lt_or_eq.mp hj with hj | hj
      · exact h.owner j hj
      · rw [Fin.ext hj]
        exact hphase
  | joinPanics hphase => exact absurd hphase (h.workers _).returns
  | closed => exact ⟨h.workers, fun k => h.owner k k.isLt, h.nextWorker⟩
  | recv hchannel hphase =>
      exact h.work ((h.workers _).recv hphase hchannel) (by simp [hphase])
  | execute hphase => exact h.work ((h.workers _).execute hphase) (by simp [hphase])
  | sendResult howner hphase => exact h.work ((h.workers _).sendResult hphase) (by simp [hphase])
  | @sendResultPanics x workers results result k channel hphase hchannel =>
      -- the receiver of the results is dropped only when all workers have ended
      have hended := h.owner k
      rw [hphase] at hended
      cases hended
  | recvFails hchannel hphase =>
      exact h.work ((h.workers _).recvFails hphase hchannel) (by simp [hphase])
  | dropReceiver hchannel hphase =>
      exact h.work ((h.workers _).dropReceiver hphase hchannel) (by simp [hphase])

theorem run (hn : 1 ≤ n) {trace : List (State T n × Label T n)}
    (hrun : Run (Step queueSize) (WorkerQueue.init T n) trace s) : Valid queueSize s :=
  hrun.invariant (.init hn) fun _ _ _ h hstep => h.step hstep

end Valid

/-! ## Every job once -/

section Traces

variable {trace : List (State T n × Label T n)} {s : State T n} {l : Label T n}

@[simp] theorem assigned_snoc :
    assigned (trace ++ [(s, l)]) = assigned trace ++ l.assigned.toList := by
  simp only [assigned, List.filterMap_append]
  cases h : l.assigned <;> simp [h]

@[simp] theorem executed_snoc :
    executed (trace ++ [(s, l)]) = executed trace ++ l.executed.toList := by
  simp only [executed, List.filterMap_append]
  cases h : l.executed <;> simp [h]

@[simp] theorem returned_snoc :
    returned (trace ++ [(s, l)]) = returned trace ++ l.result.toList := by
  simp only [returned, List.filterMap_append]
  cases h : l.result <;> simp [h]

variable {κ : Type} [DecidableEq κ] {worker w : κ} {jobs jobs' : List (κ × Job T)}

@[simp] theorem jobsOf_append :
    jobsOf worker (jobs ++ jobs') = jobsOf worker jobs ++ jobsOf worker jobs' := by
  simp [jobsOf]

@[simp] theorem jobsOf_singleton {job : Job T} :
    jobsOf worker [(w, job)] = if w = worker then [job] else [] := by
  by_cases h : w = worker <;> simp [jobsOf, h]

end Traces

/-- One member of a family gets a value. -/
theorem filterMap_update_perm {α : Type} {f : Fin n → Option α} {k : Fin n} {a : α}
    (hk : f k = none) :
    ((List.finRange n).filterMap (update f k (some a))).Perm
      (a :: (List.finRange n).filterMap f) := by
  obtain ⟨before, after, hsplit⟩ := List.append_of_mem (List.mem_finRange k)
  have hnodup := List.nodup_finRange n
  rw [hsplit, List.nodup_middle, List.nodup_cons, List.mem_append, not_or] at hnodup
  obtain ⟨⟨hbefore, hafter⟩, -⟩ := hnodup
  have hsame : ∀ l : List (Fin n), k ∉ l → l.filterMap (update f k (some a)) = l.filterMap f := by
    intro l hl
    refine List.filterMap_congr fun j hj => update_of_ne ?_ _ _
    rintro rfl
    exact hl hj
  rw [hsplit, List.filterMap_append, List.filterMap_append, hsame _ hbefore]
  simp [hsame _ hafter, hk]

/-- What has been done so far, by the calls of `enqueue` and of the jobs and the results that
were returned: the workers were chosen in turn, the jobs of a worker went to it in their
order, and every result is in one place. -/
structure Exact (calls : List (ℕ × Job T)) (done : List (Fin n × Job T)) (out : List T)
    (s : State T n) : Prop where
  counter : s.nextWorker = calls.length % n
  turns : ∀ k worker job, calls[k]? = some (worker, job) → worker = k % n
  flow : ∀ k : Fin n, jobsOf k done ++ (s.workers k).phase.inHand ++
    (s.workers k).channel.stored ++ s.owner.pending k = jobsOf k.val calls
  results : (out ++ s.results ++ s.held).Perm (done.map fun p => p.2 ())

namespace Exact

variable {calls : List (ℕ × Job T)} {done : List (Fin n × Job T)} {out : List T}
  {owner owner' : Owner T} {x : ℕ} {workers : Fin n → Worker T} {results : List T} {k : Fin n}
  {worker : Worker T} {job : Job T} {result : T}

theorem held_update :
    (⟨owner, x, update workers k worker, results⟩ : State T n).held =
      (List.finRange n).filterMap
        (update (fun j => (workers j).phase.held) k worker.phase.held) := by
  refine List.filterMap_congr fun j _ => ?_
  by_cases hj : j = k
  · subst hj
    simp
  · simp [hj]

theorem init : Exact [] [] [] (init T n) where
  counter := (Nat.zero_mod n).symm
  turns k worker job h := by simp at h
  flow k := rfl
  results := by simp [State.held, WorkerQueue.init, Phase.held]

theorem enqueue (h : Exact calls done out ⟨.idle, x, workers, results⟩) (job : Job T) :
    Exact (calls ++ [(x, job)]) done out ⟨.enqueuing x job, (x + 1) % n, workers, results⟩ where
  counter := by
    have hcounter : x = calls.length % n := h.counter
    simp [hcounter]
  turns := by
    intro k worker job' hk
    rcases Nat.lt_trichotomy k calls.length with hlt | rfl | hgt
    · rw [List.getElem?_append_left hlt] at hk
      exact h.turns k worker job' hk
    · simp only [List.getElem?_concat_length, Option.some.injEq, Prod.mk.injEq] at hk
      exact hk.1 ▸ h.counter
    · rw [List.getElem?_eq_none (by simpa using Nat.succ_le_of_lt hgt)] at hk
      cases hk
  flow j := by
    have hflow := h.flow j
    simp only [Owner.pending, List.append_nil] at hflow ⊢
    rw [jobsOf_append, jobsOf_singleton, hflow]
  results := h.results

/-- The owner moves, and no job does. -/
theorem owner_moves (h : Exact calls done out ⟨owner, x, workers, results⟩)
    (hpending : ∀ j, owner'.pending j = owner.pending j) :
    Exact calls done out ⟨owner', x, workers, results⟩ where
  counter := h.counter
  turns := h.turns
  flow j := by simpa [hpending] using h.flow j
  results := h.results

/-- A worker's job moves on its way into the worker. -/
theorem worker_moves (h : Exact calls done out ⟨owner, x, workers, results⟩)
    (hflow : worker.phase.inHand ++ worker.channel.stored ++ owner'.pending k =
      (workers k).phase.inHand ++ (workers k).channel.stored ++ owner.pending k)
    (hpending : ∀ j, j ≠ k → owner'.pending j.val = owner.pending j.val)
    (hheld : worker.phase.held = (workers k).phase.held) :
    Exact calls done out ⟨owner', x, update workers k worker, results⟩ where
  counter := h.counter
  turns := h.turns
  flow := by
    refine (forall_update_iff workers fun j w => jobsOf j done ++ w.phase.inHand ++
      w.channel.stored ++ owner'.pending j = jobsOf j.val calls).mpr ⟨?_, fun j hj => ?_⟩
    · simpa only [List.append_assoc, ← hflow] using h.flow k
    · simpa only [hpending j hj] using h.flow j
  results := by
    rw [held_update, hheld, update_eq_self]
    exact h.results

theorem execute (h : Exact calls done out ⟨owner, x, workers, results⟩)
    (hphase : (workers k).phase = .running job) :
    Exact calls (done ++ [(k, job)]) out
      ⟨owner, x, update workers k ⟨(workers k).channel, .sending (job ())⟩, results⟩ where
  counter := h.counter
  turns := h.turns
  flow := by
    refine (forall_update_iff workers fun j w => jobsOf j (done ++ [(k, job)]) ++
      w.phase.inHand ++ w.channel.stored ++ owner.pending j = jobsOf j.val calls).mpr
        ⟨?_, fun j hj => ?_⟩
    · simpa [hphase, Phase.inHand] using h.flow k
    · simpa [hj.symm] using h.flow j
  results := by
    rw [held_update, List.map_append]
    have hnone : (workers k).phase.held = none := by simp [hphase, Phase.held]
    have hheld := filterMap_update_perm (f := fun j => (workers j).phase.held) (a := job ()) hnone
    refine (hheld.append_left _).trans (List.perm_middle.trans ?_)
    exact (List.perm_append_singleton (job ()) _).symm.trans (h.results.append_right _)

theorem sendResult (h : Exact calls done out ⟨owner, x, workers, results⟩)
    (hphase : (workers k).phase = .sending result) :
    Exact calls done out
      ⟨owner, x, update workers k ⟨(workers k).channel, .waiting⟩, results ++ [result]⟩ where
  counter := h.counter
  turns := h.turns
  flow := by
    refine (forall_update_iff workers fun j w => jobsOf j done ++ w.phase.inHand ++
      w.channel.stored ++ owner.pending j = jobsOf j.val calls).mpr ⟨?_, fun j hj => h.flow j⟩
    simpa [hphase, Phase.inHand] using h.flow k
  results := by
    -- what was held before is what is held now, and the result
    have hheld := filterMap_update_perm (a := result)
      (update_self k none fun j => (workers j).phase.held)
    rw [update_idem, show some result = (workers k).phase.held by rw [hphase]; rfl,
      update_eq_self] at hheld
    rw [held_update]
    refine List.Perm.trans ?_ h.results
    simpa [Phase.held, State.held] using (hheld.symm.append_left results).append_left out

theorem receive (h : Exact calls done out ⟨.receiving, x, workers, result :: results⟩) :
    Exact calls done (out ++ [result]) ⟨.idle, x, workers, results⟩ where
  counter := h.counter
  turns := h.turns
  flow j := h.flow j
  results := by simpa [State.held] using h.results

variable {queueSize : ℕ} {trace : List (State T n × Label T n)} {s s' : State T n}
  {l : Label T n}

/-- A step that calls nothing and returns nothing. -/
theorem silent (h : Exact (assigned trace) (executed trace) (returned trace) s')
    (hassigned : l.assigned = none) (hexecuted : l.executed = none) (hresult : l.result = none) :
    Exact (assigned (trace ++ [(s, l)])) (executed (trace ++ [(s, l)]))
      (returned (trace ++ [(s, l)])) s' := by
  simpa [hassigned, hexecuted, hresult] using h

theorem step (h : Exact (assigned trace) (executed trace) (returned trace) s)
    (hvalid : Valid queueSize s) (hstep : Step queueSize s l s') :
    Exact (assigned (trace ++ [(s, l)])) (executed (trace ++ [(s, l)]))
      (returned (trace ++ [(s, l)])) s' := by
  have hvalid' := hvalid.step hstep
  cases hstep with
  | @enqueue x workers results job =>
      simpa [Label.assigned, Label.executed, Label.result] using h.enqueue job
  -- the job goes from the owner to the worker, which leaves the books as they are
  | @send x workers results job k channel hchannel =>
      refine silent (h.worker_moves ?_ ?_ rfl) rfl rfl rfl
      · simp [Owner.pending, SyncChannel.stored_of_send hchannel]
      · intro j hj
        simp [Owner.pending, Fin.val_ne_of_ne hj.symm]
  | @handOver x workers results job k channel hchannel hphase =>
      refine silent (h.worker_moves ?_ ?_ (by simp [hphase, Phase.held])) rfl rfl rfl
      · simp [Owner.pending, hphase, Phase.inHand, SyncChannel.stored_of_handOver hchannel]
      · intro j hj
        simp [Owner.pending, Fin.val_ne_of_ne hj.symm]
  -- nobody panics
  | enqueuePanics | sendPanics | indexPanics | receivePanics | joinPanics =>
      exact hvalid'.owner.elim
  | nextResult | close | dropped | join | closed =>
      exact silent (h.owner_moves fun _ => rfl) rfl rfl rfl
  | receive => simpa [Label.assigned, Label.executed, Label.result] using h.receive
  | @dropSender x workers results k channel hchannel =>
      refine silent (h.worker_moves ?_ (fun _ _ => rfl) rfl) rfl rfl rfl
      simp [Owner.pending, SyncChannel.stored_of_dropSender hchannel]
  | @recv owner x workers results job k channel hchannel hphase =>
      refine silent (h.worker_moves ?_ (fun _ _ => rfl) (by simp [hphase, Phase.held])) rfl rfl rfl
      simp [hphase, Phase.inHand, SyncChannel.stored_of_recv hchannel]
  | execute hphase =>
      simpa [Label.assigned, Label.executed, Label.result] using h.execute hphase
  | sendResult howner hphase => exact silent (h.sendResult hphase) rfl rfl rfl
  | @sendResultPanics x workers results result k channel hphase hchannel =>
      have hended := hvalid.owner k
      rw [hphase] at hended
      cases hended
  | @recvFails owner x workers results k channel hchannel hphase =>
      refine silent (h.worker_moves ?_ (fun _ _ => rfl) (by simp [hphase, Phase.held])) rfl rfl rfl
      simp [hphase, Phase.inHand, SyncChannel.stored_of_recvFails hchannel]
  -- the channel of a worker that leaves is empty, so no job is lost with it
  | @dropReceiver owner x workers results k channel hchannel hphase =>
      refine silent (h.worker_moves ?_ (fun _ _ => rfl) (by simp [hphase, Phase.held])) rfl rfl rfl
      have hempty : (workers k).channel.stored = [] := ((hvalid.workers k).left (.inl hphase)).1
      simp [hphase, Phase.inHand, SyncChannel.stored_of_dropReceiver hchannel, hempty]

theorem run (hn : 1 ≤ n) (hrun : Run (Step queueSize) (WorkerQueue.init T n) trace s) :
    Exact (assigned trace) (executed trace) (returned trace) s :=
  hrun.invariantTrace (I := fun trace s =>
    Exact (assigned trace) (executed trace) (returned trace) s) .init
    fun _ _ _ _ hrun h hstep => h.step (.run hn hrun) hstep

end Exact

/-! ## A blocked `enqueue` -/

section Blocked

variable {queueSize : ℕ} {s : State T n} {k : Fin n} {job : Job T}

/-- A worker that is not in `recv` gets there by at most two steps of its own. -/
theorem exists_waiting (queueSize : ℕ) (howner : s.owner ≠ .closed)
    (hphase : (s.workers k).phase ≠ .leaving ∧ (s.workers k).phase ≠ .ended ∧
      (s.workers k).phase ≠ .panicked) :
    ∃ rest t, Run (Step queueSize) s rest t ∧ (∀ p ∈ rest, p.2.IsOf k) ∧ rest.length ≤ 2 ∧
      t.owner = s.owner ∧ (t.workers k).channel = (s.workers k).channel ∧
      (t.workers k).phase = .waiting := by
  obtain ⟨owner, x, workers, results⟩ := s
  obtain ⟨hleaving, hended, hpanicked⟩ := hphase
  cases hworker : (workers k).phase with
  | waiting => exact ⟨[], _, .nil, by simp, by simp, rfl, rfl, hworker⟩
  | sending result =>
      refine ⟨_, _, .single (.sendResult howner hworker), ?_, by simp, rfl, ?_⟩
      · simp [Label.IsOf]
      · simp
  | running job =>
      have hcalled : Run (Step queueSize) ⟨owner, x, workers, results⟩ _ _ :=
        .single (.execute hworker)
      refine ⟨_, _, hcalled.snoc (.sendResult howner (by rw [update_self])), ?_, by simp, rfl, ?_⟩
      · simp [Label.IsOf]
      · simp
  | leaving => exact absurd hworker hleaving
  | ended => exact absurd hworker hended
  | panicked => exact absurd hworker hpanicked

theorem Worker.Valid.channel_eq {worker : Worker T} (h : worker.Valid queueSize true) :
    worker.channel = ⟨worker.channel.stored, true, true⟩ := by
  have hsender := h.sender
  have hreceiver := h.receives
  obtain ⟨⟨stored, sender, receiver⟩, phase⟩ := worker
  cases hsender
  cases hreceiver
  rfl

/-- At most three steps of its worker let `enqueue` return. -/
theorem Valid.unblocks (h : Valid queueSize s) (howner : s.owner = .enqueuing k job) :
    ∃ rest t t', Run (Step queueSize) s rest t ∧ (∀ p ∈ rest, p.2.IsOf k) ∧ rest.length ≤ 3 ∧
      Step queueSize t .sent t' := by
  have hworker := h.workers k
  rw [howner] at hworker
  have hchannel := hworker.channel_eq
  have hleft : ¬ ((s.workers k).phase = .leaving ∨ (s.workers k).phase = .ended) := fun hleft => by
    cases (hworker.left hleft).2
  obtain ⟨rest, t, hrun, hof, hshort, howner', hsame, hwaiting⟩ := exists_waiting queueSize
    (by rw [howner]; nofun) ⟨fun h => hleft (.inl h), fun h => hleft (.inr h), hworker.returns⟩
  obtain ⟨owner, x, workers, results⟩ := t
  obtain rfl : owner = .enqueuing k job := howner'.trans howner
  replace hsame : (workers k).channel = _ := hsame.trans hchannel
  cases hstored : (s.workers k).channel.stored with
  | nil =>
      rw [hstored] at hsame
      -- an empty channel has room for the job, or the job is handed over
      rcases Nat.eq_zero_or_pos queueSize with rfl | hroom
      · have hhandOver : SyncChannel.Step 0 (workers k).channel
            (some (.item job), some (.item job)) ⟨[], true, true⟩ := by
          rw [hsame]
          exact .handOver rfl
        exact ⟨rest, _, _, hrun, hof, by omega, .handOver hhandOver hwaiting⟩
      · have hsend : SyncChannel.Step queueSize (workers k).channel (some (.item job), none)
            ⟨[job], true, true⟩ := hsame ▸ .send hroom
        exact ⟨rest, _, _, hrun, hof, by omega, .send hsend⟩
  | cons first stored =>
      -- the worker takes a job, and then there is room for another one
      rw [hstored] at hsame
      have hroom : stored.length < queueSize := by
        have := hworker.bounded
        rw [hstored] at this
        simpa using Nat.lt_of_succ_le this
      have hrecv : SyncChannel.Step queueSize (workers k).channel (none, some (.item first))
          ⟨stored, true, true⟩ := hsame ▸ .recv
      refine ⟨_, _, _, hrun.snoc (.recv hrecv hwaiting), ?_,
        by simp only [List.length_append, List.length_singleton]; omega,
        .send (by rw [update_self]; exact .send hroom)⟩
      simpa [or_imp, forall_and, Label.IsOf] using hof

end Blocked

/-! ## The queue -/

theorem count_jobsOf {κ : Type} [DecidableEq κ] [DecidableEq (Job T)] (worker : κ) (job : Job T)
    (jobs : List (κ × Job T)) : (jobsOf worker jobs).count job = jobs.count (worker, job) := by
  induction jobs with
  | nil => rfl
  | cons first rest ih =>
      obtain ⟨w, j⟩ := first
      rw [← List.singleton_append, jobsOf_append, List.count_append, List.count_append, ih,
        jobsOf_singleton]
      by_cases hw : w = worker <;> simp [hw, List.count_singleton]

open Classical in
/-- Workers that have called all that they were given have called every job once. -/
theorem executed_perm {calls : List (ℕ × Job T)} {done : List (Fin n × Job T)}
    (hcalls : ∀ p ∈ calls, p.1 < n) (hall : ∀ k : Fin n, jobsOf k done = jobsOf k.val calls) :
    (done.map fun p => (p.1.val, p.2)).Perm calls := by
  refine List.perm_iff_count.mpr fun (worker, job) => ?_
  by_cases hworker : worker < n
  · have hdone : (done.map fun p => (p.1.val, p.2)).count (worker, job) =
        done.count (⟨worker, hworker⟩, job) := by
      refine List.count_map_of_injective done (fun p : Fin n × Job T => (p.1.val, p.2)) ?_
        (⟨worker, hworker⟩, job)
      rintro ⟨k, job⟩ ⟨k', job'⟩ h
      simpa [Fin.ext_iff] using h
    rw [hdone, ← count_jobsOf, hall ⟨worker, hworker⟩, count_jobsOf]
  · -- neither list has a job for a worker that does not exist
    rw [List.count_eq_zero_of_not_mem, List.count_eq_zero_of_not_mem]
    · exact fun hmem => hworker (hcalls _ hmem)
    · intro hmem
      obtain ⟨p, -, hp⟩ := List.mem_map.mp hmem
      obtain ⟨rfl, -⟩ := Prod.mk.inj hp
      exact hworker p.1.isLt

/-- **Every job exactly once.**  In every state that a queue of `n` workers reaches: the
`k`-th job enqueued was given to worker `k % n`; the jobs of a worker are, in the order they
were enqueued, those it has called, the one it has taken, those in its channel and the one
that `enqueue` is blocked with; the results returned, those in the channel and those that
workers are about to send are together the results of the jobs called; no worker and no call
of the owner has panicked; a blocked `enqueue` returns after at most three steps of its
worker; and when `close` has returned, every job was called once, by the worker it was given
to. -/
theorem every_job_once (hn : 1 ≤ n) (queueSize : ℕ) {trace : List (State T n × Label T n)}
    {s : State T n} (hrun : Run (Step queueSize) (init T n) trace s) :
    (∀ k worker job, (assigned trace)[k]? = some (worker, job) → worker = k % n) ∧
      (∀ k : Fin n, jobsOf k (executed trace) ++ (s.workers k).phase.inHand ++
        (s.workers k).channel.stored ++ s.owner.pending k = jobsOf k.val (assigned trace)) ∧
      (returned trace ++ s.results ++ s.held).Perm ((executed trace).map fun p => p.2 ()) ∧
      (s.owner ≠ .panicked ∧ ∀ k, (s.workers k).phase ≠ .panicked) ∧
      (∀ k job, s.owner = .enqueuing k job → ∃ hk : k < n, ∃ rest t t',
        Run (Step queueSize) s rest t ∧ (∀ p ∈ rest, p.2.IsOf ⟨k, hk⟩) ∧ rest.length ≤ 3 ∧
        Step queueSize t .sent t') ∧
      (s.owner = .closed →
        ((executed trace).map fun p => (p.1.val, p.2)).Perm (assigned trace)) := by
  have hvalid := Valid.run hn hrun
  have hexact := Exact.run hn hrun
  refine ⟨hexact.turns, hexact.flow, hexact.results, ⟨?_, fun k => (hvalid.workers k).returns⟩,
    fun k job howner => ?_, fun howner => executed_perm ?_ fun k => ?_⟩
  · intro howner
    have := hvalid.owner
    rw [howner] at this
    exact this
  · have hk : k < n := by
      have := hvalid.owner
      rwa [howner] at this
    exact ⟨hk, hvalid.unblocks (k := ⟨k, hk⟩) howner⟩
  · rintro ⟨worker, job⟩ hmem
    obtain ⟨k, hk, hget⟩ := List.mem_iff_getElem.mp hmem
    rw [hexact.turns k worker job (List.getElem?_eq_some_iff.mpr ⟨hk, hget⟩)]
    exact Nat.mod_lt _ hn
  · have hended : (s.workers k).phase = .ended := by
      have := hvalid.owner
      rw [howner] at this
      exact this k
    have hflow := hexact.flow k
    rw [hended, ((hvalid.workers k).left (.inr hended)).1, howner] at hflow
    simpa [Phase.inHand, Owner.pending] using hflow

/-- Two workers are given three jobs.  The second `enqueue` of worker 0 waits until the worker
has taken the first, the result of worker 1 comes first, and one result is left in the channel
when the queue is closed. -/
theorem every_job_once_two :
    ∃ trace s, Run (Step 1) (init ℕ 2) trace s ∧ s.owner = .closed ∧
      ((assigned trace).map fun p => (p.1, p.2 ())) = [(0, 7), (1, 8), (0, 9)] ∧
      ((executed trace).map fun p => (p.1.val, p.2 ())) = [(1, 8), (0, 7), (0, 9)] ∧
      returned trace = [8, 7] ∧ s.results = [9] ∧
      ((executed trace).map fun p => (p.1.val, p.2)).Perm (assigned trace) ∧
      (returned trace ++ s.results ++ s.held).Perm ((executed trace).map fun p => p.2 ()) := by
  have start : Run (Step 1) (init ℕ 2) [] (init ℕ 2) := .nil
  -- both channels are full, and the owner waits for worker 0
  have hfull : Run (Step 1) (init ℕ 2) _ ⟨.enqueuing 0 fun _ => 9, 1, _, []⟩ :=
    ((((start.snoc (l := .enqueue 0 fun _ => 7) (.enqueue Nat.two_pos)).snoc
      (.send (k := 0) (.send (by decide)))).snoc
      (l := .enqueue 1 fun _ => 8) (.enqueue Nat.two_pos)).snoc
      (.send (k := 1) (.send (by decide)))).snoc
      (l := .enqueue 0 fun _ => 9) (.enqueue Nat.two_pos)
  have hsent := (hfull.snoc (.recv (k := 0) .recv rfl)).snoc (.send (k := 0) (.send (by decide)))
  have hsecond := ((hsent.snoc (.recv (k := 1) .recv rfl)).snoc (.execute (k := 1) rfl)).snoc
    (.sendResult (k := 1) nofun rfl)
  have hfirst := (hsecond.snoc (.execute (k := 0) rfl)).snoc (.sendResult (k := 0) nofun rfl)
  have htaken := (((hfirst.snoc .nextResult).snoc .receive).snoc .nextResult).snoc .receive
  -- the third job is called while the queue is being closed
  have hdropped := (((htaken.snoc .close).snoc (.dropSender (k := 0) .dropSender)).snoc
    (.dropSender (k := 1) .dropSender)).snoc .dropped
  have hthird := ((hdropped.snoc (.recv (k := 0) .recv rfl)).snoc (.execute (k := 0) rfl)).snoc
    (.sendResult (k := 0) nofun rfl)
  have hended := (((hthird.snoc (.recvFails (k := 1) .recvFails rfl)).snoc
    (.dropReceiver (k := 1) .dropReceiver rfl)).snoc (.recvFails (k := 0) .recvFails rfl)).snoc
    (.dropReceiver (k := 0) .dropReceiver rfl)
  have hrun := ((hended.snoc (.join (k := 0) rfl)).snoc (.join (k := 1) rfl)).snoc .closed
  obtain ⟨-, -, hresults, -, -, hclosed⟩ := every_job_once (by decide) 1 hrun
  exact ⟨_, _, hrun, rfl, rfl, rfl, rfl, rfl, hclosed rfl, hresults⟩

end RustCourse.Lesson07.WorkerQueue
