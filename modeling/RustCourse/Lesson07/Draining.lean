import Mathlib.Algebra.BigOperators.Fin
import RustCourse.Lesson07.JobPanics

/-!
# Closing the worker queue

`close` drops the senders of all workers and joins them one after the other.  A worker still
does what waits in its channel, three steps for every job, and leaves.  Whatever the threads do
in between, `close` comes to an end (`close_ends`): it returns, or a job has panicked and the
join of its worker is unwrapped.

The argument is a rank that every step lowers, and that a queue with something left to do can
do a step: the owner drops or joins, or waits for a worker that can move.

The rank counts for every job the steps that are left of it, for every worker those to leave
its loop, and for the owner the drops and joins.
-/

namespace RustCourse.Lesson07.WorkerQueue

open Dataflow Transition Function

variable {T : Type} {n : ℕ}

/-- The owner is in `close`, or has left it. -/
def Owner.closing : Owner T → Bool
  | idle | enqueuing _ _ | receiving => false
  | dropping _ | joining _ | closed | panicked => true

/-! ## Every step lowers the rank -/

/-- How many steps the worker takes at most before it waits or has ended. -/
def Phase.rank : Phase T → ℕ
  | running _ => 4
  | sending _ => 3
  | waiting => 2
  | leaving => 1
  | ended | panicked => 0

/-- What a worker still has to do: a job in the channel is taken, called, and its result
sent. -/
def Worker.rank (worker : Worker T) : ℕ :=
  3 * worker.channel.stored.length + worker.phase.rank

/-- What the owner still has to do in `close`. -/
def Owner.rank (n : ℕ) : Owner T → ℕ
  | dropping worker => n - worker + (n + 2)
  | joining worker => n - worker + 1
  | _ => 0

/-- The rank of the owner and of its workers. -/
def State.rank (s : State T n) : ℕ :=
  s.owner.rank n + ∑ k, (s.workers k).rank

section Rank

variable {queueSize : ℕ} {owner : Owner T} {x : ℕ} {workers : Fin n → Worker T}
  {results results' : List T} {k : Fin n} {worker : Worker T}

private theorem sum_rank_update (workers : Fin n → Worker T) (k : Fin n) (worker : Worker T) :
    (∑ j, (update workers k worker j).rank) + (workers k).rank =
      (∑ j, (workers j).rank) + worker.rank := by
  have hupdate : (fun j => (update workers k worker j).rank) =
      update (fun j => (workers j).rank) k worker.rank :=
    comp_update Worker.rank workers k worker
  rw [hupdate, Finset.sum_update_of_mem (Finset.mem_univ k),
    ← Finset.add_sum_erase Finset.univ _ (Finset.mem_univ k), Finset.sdiff_singleton_eq_erase]
  omega

/-- A worker moves, and the owner does not. -/
theorem rank_update (hlt : worker.rank < (workers k).rank) :
    (⟨owner, x, update workers k worker, results'⟩ : State T n).rank <
      (⟨owner, x, workers, results⟩ : State T n).rank := by
  have hsum := sum_rank_update workers k worker
  unfold State.rank
  dsimp only
  omega

variable {s s' : State T n} {l : Label T n}

theorem rank_lt_of_step (hclosing : s.owner.closing = true) (howner : s.owner ≠ .panicked)
    (hstep : Step queueSize s l s') : s'.rank < s.rank ∧ s'.owner.closing = true := by
  cases hstep with
  -- none of these is a step of an owner that has begun to close
  | enqueue | enqueuePanics | send | handOver | sendPanics | indexPanics | nextResult | receive
  | receivePanics | close => cases hclosing
  | @dropSender x workers results k channel hchannel =>
      refine ⟨?_, rfl⟩
      have hsame : (⟨channel, (workers k).phase⟩ : Worker T).rank = (workers k).rank := by
        simp only [Worker.rank, SyncChannel.stored_of_dropSender hchannel]
      have hsum := sum_rank_update workers k ⟨channel, (workers k).phase⟩
      have hk := k.isLt
      simp only [State.rank, Owner.rank]
      omega
  | dropped => exact ⟨by simp [State.rank, Owner.rank], rfl⟩
  | @join x workers results k hphase =>
      have hk := k.isLt
      exact ⟨by simp only [State.rank, Owner.rank]; omega, rfl⟩
  | joinPanics => exact ⟨by simp only [State.rank, Owner.rank]; omega, rfl⟩
  | closed => exact ⟨by simp [State.rank, Owner.rank], rfl⟩
  -- the worker has one job less in its channel, and three steps to go for it
  | @recv owner x workers results job k channel hchannel hphase =>
      refine ⟨rank_update ?_, hclosing⟩
      simp only [Worker.rank, hphase, Phase.rank, SyncChannel.stored_of_recv hchannel,
        List.length_cons]
      omega
  | execute hphase =>
      refine ⟨rank_update ?_, hclosing⟩
      simp only [Worker.rank, hphase, Phase.rank]
      omega
  | sendResult _ hphase =>
      refine ⟨rank_update ?_, hclosing⟩
      simp only [Worker.rank, hphase, Phase.rank]
      omega
  | sendResultPanics hphase hchannel =>
      refine ⟨rank_update ?_, hclosing⟩
      simp only [Worker.rank, hphase, Phase.rank, SyncChannel.stored_of_dropReceiver hchannel,
        List.length_nil]
      omega
  | recvFails hchannel hphase =>
      refine ⟨rank_update ?_, hclosing⟩
      simp only [Worker.rank, hphase, Phase.rank, SyncChannel.stored_of_recvFails hchannel]
      omega
  | dropReceiver hchannel hphase =>
      refine ⟨rank_update ?_, hclosing⟩
      simp only [Worker.rank, hphase, Phase.rank, SyncChannel.stored_of_dropReceiver hchannel,
        List.length_nil]
      omega

end Rank

variable {queueSize : ℕ} {s s' t : State (Outcome T) n} {l : Label (Outcome T) n}
  {trace rest : List (State (Outcome T) n × Label (Outcome T) n)}

private theorem rank_lt_of_panicStep (hclosing : s.owner.closing = true)
    (hstep : PanicStep queueSize s l s') : s'.rank < s.rank ∧ s'.owner.closing = true := by
  cases hstep with
  | step howner _ hstep => exact rank_lt_of_step hclosing howner hstep
  | jobPanics _ hphase _ hchannel =>
      refine ⟨rank_update ?_, hclosing⟩
      simp only [Worker.rank, hphase, Phase.rank, SyncChannel.stored_of_dropReceiver hchannel,
        List.length_nil]
      omega

/-- Once `close` is called there are no more steps than the rank says. -/
theorem length_le_rank (hclosing : s.owner.closing = true)
    (hrun : Run (PanicStep queueSize) s rest t) :
    rest.length + t.rank ≤ s.rank ∧ t.owner.closing = true := by
  refine hrun.invariantTrace (I := fun rest t =>
    rest.length + t.rank ≤ s.rank ∧ t.owner.closing = true) (by simp [hclosing]) ?_
  rintro rest t l u - ⟨hle, hclosing⟩ hstep
  obtain ⟨hlt, hclosing'⟩ := rank_lt_of_panicStep hclosing hstep
  rw [List.length_append, List.length_singleton]
  exact ⟨by omega, hclosing'⟩

/-! ## Nobody is stuck -/

/-- `close` joins no more workers than there are. -/
theorem joining_le (hrun : Run (PanicStep queueSize) (init (Outcome T) n) trace s) :
    ∀ worker, s.owner = .joining worker → worker ≤ n := by
  refine hrun.invariant (I := fun s => ∀ worker, s.owner = .joining worker → worker ≤ n) ?_ ?_
  · rintro worker ⟨⟩
  · intro s l s' h hstep worker howner
    cases hstep with
    | jobPanics => exact h worker howner
    | step _ _ hstep =>
        cases hstep with
        | dropped =>
            cases howner
            exact Nat.zero_le n
        | @join _ _ _ k =>
            cases howner
            exact k.isLt
        | recv | execute | sendResult | recvFails | dropReceiver => exact h worker howner
        | _ => cases howner

/-- A worker in its loop whose sender was dropped. -/
theorem Worker.Valid.channel_of_dropped {worker : Worker T} (h : worker.Valid queueSize false)
    (hphase : worker.phase ≠ .ended) :
    worker.channel = ⟨worker.channel.stored, false, true⟩ := by
  have hsender := h.sender
  have hreceiver := h.receiver hphase
  obtain ⟨⟨stored, sender, receiver⟩, phase⟩ := worker
  cases hsender
  cases hreceiver
  rfl

section Progress

variable {x : ℕ} {workers : Fin n → Worker (Outcome T)} {results : List (Outcome T)} {k : Fin n}

/-- `close` drops a sender, of a dead worker too. -/
theorem Sound.drops (h : Sound queueSize ⟨.dropping k, x, workers, results⟩) :
    ∃ l s', PanicStep queueSize ⟨.dropping k, x, workers, results⟩ l s' := by
  have hgoing : (.dropping k : Owner (Outcome T)) ≠ .panicked := by simp
  have hsender : (workers k).channel.sender = true := by
    have hsends : Owner.sends k (.dropping k : Owner (Outcome T)) = true := by simp [Owner.sends]
    rcases h.workers hgoing k with hvalid | hdead
    · exact hvalid.sender.trans hsends
    · rw [hdead.channel]
      exact hsends
  have hchannel : (workers k).channel =
      ⟨(workers k).channel.stored, true, (workers k).channel.receiver⟩ := by
    rw [← hsender]
  have hstep : SyncChannel.Step queueSize (workers k).channel (some .eof, none)
      ⟨(workers k).channel.stored, false, (workers k).channel.receiver⟩ := by
    rw [hchannel]
    exact .dropSender
  exact ⟨_, _, .quiet hgoing rfl (.dropSender hstep)⟩

/-- A worker that `close` waits for can move, or is joined. -/
theorem Sound.joins (h : Sound queueSize ⟨.joining k, x, workers, results⟩) :
    ∃ l s', PanicStep queueSize ⟨.joining k, x, workers, results⟩ l s' := by
  -- every sender was dropped before the joins
  have hchannel : (workers k).phase ≠ .panicked → (workers k).phase ≠ .ended →
      (workers k).channel = ⟨(workers k).channel.stored, false, true⟩ :=
    fun hliving => (h.valid nofun hliving).channel_of_dropped
  have hdrop : (workers k).phase ≠ .panicked → (workers k).phase ≠ .ended →
      SyncChannel.Step queueSize (workers k).channel (none, some .hangup)
        ⟨[], false, false⟩ := by
    intro hliving hended
    rw [hchannel hliving hended]
    exact .dropReceiver
  cases hphase : (workers k).phase with
  | panicked => exact ⟨_, _, .quiet nofun rfl (.joinPanics hphase)⟩
  | ended => exact ⟨_, _, .quiet nofun rfl (.join hphase)⟩
  | sending result => exact ⟨_, _, .quiet nofun rfl (.sendResult nofun hphase)⟩
  | leaving =>
      have hstep := hdrop (by simp [hphase]) (by simp [hphase])
      exact ⟨_, _, .quiet nofun rfl (.dropReceiver hstep hphase)⟩
  -- a job that panics is a step as well
  | running job =>
      by_cases hpanic : job () = .panic
      · have hstep := hdrop (by simp [hphase]) (by simp [hphase])
        exact ⟨_, _, .jobPanics nofun hphase hpanic hstep⟩
      · refine ⟨_, _, .step nofun ?_ (.execute hphase)⟩
        rintro _ _ ⟨⟩
        exact hpanic
  -- a worker that waits has a job in its channel, or sees the end of it
  | waiting =>
      have hwaiting := hchannel (by simp [hphase]) (by simp [hphase])
      cases hstored : (workers k).channel.stored with
      | nil =>
          have hstep : SyncChannel.Step queueSize (workers k).channel (none, some .eof)
              ⟨[], false, true⟩ := by
            rw [hwaiting, hstored]
            exact .recvFails
          exact ⟨_, _, .quiet nofun rfl (.recvFails hstep hphase)⟩
      | cons job stored =>
          have hstep : SyncChannel.Step queueSize (workers k).channel (none, some (.item job))
              ⟨stored, false, true⟩ := by
            rw [hwaiting, hstored]
            exact .recv
          exact ⟨_, _, .quiet nofun rfl (.recv hstep hphase)⟩

end Progress

/-- As long as `close` has not come to its end, a thread can move. -/
theorem progress (hn : 1 ≤ n) (hrun : Run (PanicStep queueSize) (init (Outcome T) n) trace s)
    (hclosing : s.owner.closing = true) :
    s.owner = .closed ∨ s.owner = .panicked ∨ ∃ l s', PanicStep queueSize s l s' := by
  have hsound := Sound.run hn hrun
  have hjoining := joining_le hrun
  obtain ⟨owner, x, workers, results⟩ := s
  cases owner with
  | closed => exact .inl rfl
  | panicked => exact .inr (.inl rfl)
  | idle | enqueuing | receiving => cases hclosing
  | dropping worker =>
      right
      right
      have hle : worker ≤ n := hsound.ownerValid nofun
      rcases Nat.lt_or_eq_of_le hle with hlt | rfl
      · exact Sound.drops (k := ⟨worker, hlt⟩) hsound
      · exact ⟨_, _, .quiet nofun rfl .dropped⟩
  | joining worker =>
      right
      right
      rcases Nat.lt_or_eq_of_le (hjoining worker rfl) with hlt | rfl
      · exact Sound.joins (k := ⟨worker, hlt⟩) hsound
      · exact ⟨_, _, .quiet nofun rfl .closed⟩

/-! ## The end of `close` -/

/-- **`close` comes to an end.**  From every state in which `close` was called, with jobs in
the channels and in work, and jobs that panic: there are only so many steps left, whatever the
threads do; and where no thread can move, `close` has returned, no job has panicked and every
job was called once, or `close` has panicked, and so has a job. -/
theorem close_ends (hn : 1 ≤ n) (queueSize : ℕ)
    (hrun : Run (PanicStep queueSize) (init (Outcome T) n) trace s)
    (hclosing : s.owner.closing = true) :
    (∀ rest t, Run (PanicStep queueSize) s rest t → rest.length ≤ s.rank) ∧
      ∀ rest t, Run (PanicStep queueSize) s rest t → (∀ l t', ¬ PanicStep queueSize t l t') →
        (t.owner = .closed ∧ (∀ p ∈ executed (trace ++ rest), p.2 () ≠ .panic) ∧
          ((executed (trace ++ rest)).map fun p => (p.1.val, p.2)).Perm
            (assigned (trace ++ rest))) ∨
        (t.owner = .panicked ∧ ∃ p ∈ executed (trace ++ rest), p.2 () = .panic) := by
  refine ⟨fun rest t hrest => (Nat.le_add_right _ _).trans (length_le_rank hclosing hrest).1,
    fun rest t hrest hstuck => ?_⟩
  have hall := hrun.append hrest
  rcases progress hn hall (length_le_rank hclosing hrest).2 with hclosed | hpanicked | hmoves
  · exact .inl ⟨hclosed, executed_of_closed hn hall hclosed⟩
  · exact .inr ⟨hpanicked, panic_of_panicked hn hall hpanicked⟩
  · obtain ⟨l, t', hstep⟩ := hmoves
    exact absurd hstep (hstuck l t')

/-- One job is in the channel: five steps of the worker, and four of `close`. -/
theorem close_ends_one :
    ∃ trace s, Run (PanicStep 1) (init (Outcome ℕ) 1) trace s ∧ s.owner.closing = true ∧
      (∀ rest t, Run (PanicStep 1) s rest t → rest.length ≤ 9) ∧
      ∀ rest t, Run (PanicStep 1) s rest t → (∀ l t', ¬ PanicStep 1 t l t') →
        t.owner = .closed ∨ t.owner = .panicked := by
  have start : Run (PanicStep 1) (init (Outcome ℕ) 1) [] (init (Outcome ℕ) 1) := .nil
  have hsent := (start.snoc (l := .enqueue 0 fun _ => .ret 7)
    (.quiet nofun rfl (.enqueue Nat.one_pos))).snoc
      (.quiet nofun rfl (.send (k := 0) (.send (by decide))))
  have hrun := hsent.snoc (.quiet nofun rfl .close)
  obtain ⟨hlength, hends⟩ := close_ends le_rfl 1 hrun rfl
  refine ⟨_, _, hrun, rfl, fun rest t hrest => ?_, fun rest t hrest hstuck => ?_⟩
  · have hle := hlength rest t hrest
    simpa [State.rank, Owner.rank, Worker.rank, Phase.rank, init] using hle
  · exact (hends rest t hrest hstuck).imp And.left And.left

end RustCourse.Lesson07.WorkerQueue
