import RustCourse.Lesson08.Steps
import RustCourse.Lesson10.Steps
import RustCourse.Lesson10Parallel.Steps

/-!
# What ends the accept loops

The servers of lessons 08, 10 and 10_parallel serve each client in a thread or task of its
own, but a connection that is refused is told "Server is full" by the accept loop itself,
with a `?` behind the write.  So the loop does not only end at the shutdown signal: a
refused client with a broken socket ends it, and in lessons 10 and 10_parallel the
`JoinSet` is dropped with it and the handlers of all other clients are cancelled.

`accepting_until_signal` says that in each of the servers this is the only way: in every
run, the loop ends and handlers are cancelled only after the signal if and only if the
same is true of the failing refusals.
-/

/-! ## Lesson 08 -/

namespace RustCourse.Lesson08

open Transition

/-- `drop` stores `terminated`. -/
def Signals (p : Server × Label) : Prop :=
  p.2 = .drop .start

/-- The write of "Server is full" fails. -/
def RefusalFails (p : Server × Label) : Prop :=
  p.2 = .acceptor (.refused false)

/-- The accept loop ends, or a handler goes on without a step of its own. -/
inductive Disturbs (maxClients : ℕ) (p : Server × Label) : Prop
  | ends {s'} : step maxClients p.1 p.2 = some s' → p.1.acceptor ≠ .ended →
      s'.acceptor = .ended → Disturbs maxClients p
  | cancels {t s'} : step maxClients p.1 p.2 = some s' → p.1.phase t ≠ .absent →
      (∀ action, p.2 ≠ .handler t action) → s'.phase t ≠ p.1.phase t → Disturbs maxClients p

variable {maxClients : ℕ} {trace : List (Server × Label)} {s s' : Server} {l : Label}

theorem terminated_of_step (hstep : step maxClients s l = some s') :
    s'.terminated = s.terminated ∨ l = .drop .start := by
  cases l with
  | handler t action =>
      left
      cases moved_of_handlerStep hstep <;> rfl
  | acceptor action =>
      left
      simp only [step] at hstep
      cases action <;> simp only [acceptorStep] at hstep <;> (repeat' split at hstep) <;>
        cases hstep <;> rfl
  | drop action =>
      simp only [step] at hstep
      cases action with
      | start => exact .inr rfl
      | _ =>
          left
          simp only [dropStep] at hstep
          (repeat' split at hstep) <;> cases hstep <;> rfl

/-- Only `drop` stores `terminated`. -/
theorem signalled_of_terminated (hrun : Run (Fires (step maxClients)) Server.init trace s) :
    s.terminated = true → ∃ q ∈ trace, Signals q := by
  refine hrun.exists_cause (F := fun s => s.terminated = true) (by simp [Server.init])
    fun trace s l s' _ hstep hterminated => ?_
  rcases terminated_of_step hstep with hkept | hstart
  · exact .inl (by rw [← hkept, hterminated])
  · exact .inr hstart

/-- The acceptor ends when it finds `terminated`, or after a failed refusal. -/
theorem terminated_of_ends (hstep : step maxClients s l = some s') (hrunning : s.acceptor ≠ .ended)
    (hended : s'.acceptor = .ended) : s.terminated = true ∨ l = .acceptor (.refused false) := by
  cases l with
  | handler t action =>
      rw [(moved_of_handlerStep hstep).acceptor] at hended
      exact absurd hended hrunning
  | drop action =>
      rw [(drop_frame hstep).2.2.2] at hended
      exact absurd hended hrunning
  | acceptor action =>
      simp only [step] at hstep
      cases action with
      -- the loop is left where the flag is read, and by the `?` behind a refusal
      | load =>
          simp only [acceptorStep] at hstep
          split at hstep <;> cases hstep
          by_cases hterminated : s.terminated = true
          · exact .inl hterminated
          · simp [hterminated] at hended
      | refused ok =>
          simp only [acceptorStep] at hstep
          split at hstep <;> cases hstep
          cases ok with
          | true => simp at hended
          | false => exact .inr rfl
      | accept | acceptWakeUp | lock | reap =>
          simp only [acceptorStep] at hstep
          (repeat' split at hstep) <;> cases hstep <;> simp_all

theorem accepting_iff (hrun : Run (Fires (step maxClients)) Server.init trace s) :
    OnlyAfter Signals (Disturbs maxClients) trace ↔ OnlyAfter Signals RefusalFails trace := by
  constructor
  · intro h before p after heq hfails
    obtain ⟨s', -, hstep, -⟩ := hrun.split before p after heq
    apply h before p after heq
    have hrefused : acceptorStep maxClients p.1 (.refused false) = some s' := by
      rw [Fires, hfails] at hstep
      exact hstep
    simp only [acceptorStep] at hrefused
    split at hrefused <;> cases hrefused
    next hrefusing => exact .ends hstep (by simp [hrefusing]) rfl
  · intro h
    apply h.trans
    intro before p after heq hdisturbs
    obtain ⟨-, hbefore, -, -⟩ := hrun.split before p after heq
    cases hdisturbs with
    | ends hstep hrunning hended =>
        rcases terminated_of_ends hstep hrunning hended with hterminated | hfails
        · obtain ⟨q, hq, hsignals⟩ := signalled_of_terminated hbefore hterminated
          exact .inr ⟨q, hq, .inl hsignals⟩
        · exact .inl (.inr hfails)
    | cancels hstep hthere hother hchanged =>
        rcases phase_of_other hbefore hstep hother with hkept | ⟨habsent, -⟩
        · exact absurd hkept hchanged
        · exact absurd habsent hthere

end RustCourse.Lesson08

/-! ## Lesson 10 -/

namespace RustCourse.Lesson10

open Transition

/-- The stop signal arrives. -/
def Signals (p : Server × Label) : Prop :=
  p.2 = .stop

/-- The write of "Server is full" fails. -/
def RefusalFails (p : Server × Label) : Prop :=
  p.2 = .refused false

/-- The task whose step it is. -/
def Label.task : Label → Option TaskId
  | .timeout t => some t
  | .recv t _ _ => some t
  | .dequeue t => some t
  | .wrote t _ => some t
  | _ => none

/-- The accept loop ends, or a handler goes on without a step of its own. -/
inductive Disturbs (maxClients : ℕ) (p : Server × Label) : Prop
  | ends {s'} : step maxClients p.1 p.2 = some s' → p.1.acceptor ≠ .stopped →
      s'.acceptor = .stopped → Disturbs maxClients p
  | cancels {t s'} : step maxClients p.1 p.2 = some s' → (p.1.task t).phase ≠ .absent →
      p.2.task ≠ some t → (s'.task t).phase ≠ (p.1.task t).phase → Disturbs maxClients p

variable {maxClients : ℕ} {trace : List (Server × Label)} {s s' : Server} {l : Label} {t : TaskId}

/-- Everything else leaves the accept loop and the other handlers alone. -/
theorem undisturbed_of_moved (h : Moved s l s') (hstop : l ≠ .stop)
    (hrefused : l ≠ .refused false) :
    (s'.acceptor = .stopped → s.acceptor = .stopped) ∧
      ((s.task t).phase ≠ .absent → l.task ≠ some t → (s'.task t).phase = (s.task t).phase) := by
  cases h with
  | refusalFailed => exact absurd rfl hrefused
  | stopped => exact absurd rfl hstop
  | turnedAway | refused => exact ⟨by simp, fun _ _ => rfl⟩
  | reaped => exact ⟨id, fun _ _ => rfl⟩
  -- the task that is spawned was absent before, so it is not `t`
  | @spawned u _ habsent =>
      refine ⟨id, fun hthere _ => ?_⟩
      have hne : t ≠ u := by
        rintro rfl
        exact hthere habsent
      simp [hne]
  -- messages are put into the queues of others, which moves nobody
  | @delivered u name msg order targets forwarded =>
      rw [Server.sendAll_acceptor]
      exact ⟨id, fun _ _ => Server.sendAll_phase targets t⟩
  | @undelivered u name msg order targets forwarded =>
      refine ⟨fun h => by rwa [← Server.sendAll_acceptor targets], fun _ hother => ?_⟩
      have hne : t ≠ u := by
        rintro rfl
        exact hother rfl
      rw [Server.leave_task, if_neg hne]
      exact Server.sendAll_phase targets t
  | @timedOut u | @joined u | @unread u | @panicked u | @answering u | @dequeued u | @orphaned u
  | @notJoined u | @inserted u | @answered u | @bailed u | @forwarded u | @unforwarded u =>
      refine ⟨id, fun _ hother => ?_⟩
      have hne : t ≠ u := by
        rintro rfl
        exact hother rfl
      simp [hne]

theorem accepting_iff (hrun : Run (Fires (step maxClients)) Server.init trace s) :
    OnlyAfter Signals (Disturbs maxClients) trace ↔ OnlyAfter Signals RefusalFails trace := by
  constructor
  · intro h before p after heq hfails
    obtain ⟨s', -, hstep, -⟩ := hrun.split before p after heq
    apply h before p after heq
    have hrefused : step maxClients p.1 (.refused false) = some s' := by
      rw [Fires, hfails] at hstep
      exact hstep
    simp only [step] at hrefused
    split at hrefused <;> cases hrefused
    next hrefusing => exact .ends hstep (by simp [hrefusing]) rfl
  · intro h
    apply h.trans
    intro before p after heq hdisturbs
    left
    by_contra hneither
    obtain ⟨hstop, hrefused⟩ := not_or.mp hneither
    cases hdisturbs with
    | ends hstep hrunning hended =>
        have hkept := undisturbed_of_moved (t := 0) (moved_of_step hstep) hstop hrefused
        exact hrunning (hkept.1 hended)
    | @cancels t s' hstep hthere hother hchanged =>
        have hkept := undisturbed_of_moved (t := t) (moved_of_step hstep) hstop hrefused
        exact hchanged (hkept.2 hthere hother)

end RustCourse.Lesson10

/-! ## Lesson 10_parallel -/

namespace RustCourse.Lesson10Parallel

open Transition

/-- The stop signal arrives. -/
def Signals (p : Server × Label) : Prop :=
  p.2 = .stop

/-- The write of "Server is full" fails. -/
def RefusalFails (p : Server × Label) : Prop :=
  p.2 = .refused false

/-- The task whose step it is. -/
def Label.task : Label → Option TaskId
  | .timeout t => some t
  | .recv t _ => some t
  | .request t => some t
  | .grant t => some t
  | .act t _ => some t
  | .wrote t _ => some t
  | _ => none

/-- The accept loop ends, or a handler goes on without a step of its own. -/
inductive Disturbs (maxClients : ℕ) (p : Server × Label) : Prop
  | ends {s'} : step maxClients p.1 p.2 = some s' → p.1.acceptor ≠ .stopped →
      s'.acceptor = .stopped → Disturbs maxClients p
  | cancels {t s'} : step maxClients p.1 p.2 = some s' → p.1.phase t ≠ .absent →
      p.2.task ≠ some t → s'.phase t ≠ p.1.phase t → Disturbs maxClients p

variable {maxClients : ℕ} {trace : List (Server × Label)} {s s' : Server} {l : Label} {t : TaskId}

private theorem signals_of_ends (hstep : step maxClients s l = some s')
    (hrunning : s.acceptor ≠ .stopped) (hstopped : s'.acceptor = .stopped) :
    l = .stop ∨ l = .refused false := by
  cases stepped_of_step hstep with
  | spawned | reaped => exact absurd hstopped hrunning
  | turnedAway => cases hstopped
  | @refusal ok _ =>
      cases ok with
      | true => cases hstopped
      | false => exact .inr rfl
  | stopped => exact .inl rfl
  | moved hmoved =>
      rw [hmoved.acceptor] at hstopped
      exact absurd hstopped hrunning

/-- A server that has stopped was told to, or failed to refuse a client. -/
theorem signals_of_stopped (hrun : Run (Fires (step maxClients)) Server.init trace s) :
    s.acceptor = .stopped → ∃ q ∈ trace, Signals q ∨ RefusalFails q := by
  refine hrun.exists_cause (F := fun s => s.acceptor = .stopped) (by simp [Server.init])
    fun trace s l s' _ hstep hstopped => ?_
  by_cases hbefore : s.acceptor = .stopped
  · exact .inl hbefore
  · exact .inr (signals_of_ends hstep hbefore hstopped)

/-- Only a task of a stopped server goes on without a step of its own. -/
theorem stopped_of_cancels (hstep : step maxClients s l = some s') (hthere : s.phase t ≠ .absent)
    (hother : l.task ≠ some t) (hchanged : s'.phase t ≠ s.phase t) : s.acceptor = .stopped := by
  cases stepped_of_step hstep with
  | @spawned u _ habsent _ =>
      have hne : t ≠ u := by
        rintro rfl
        exact hthere habsent
      exact absurd (by simp [hne]) hchanged
  | turnedAway | refusal | reaped | stopped => exact absurd rfl hchanged
  | @moved u l s' hmoved =>
      obtain rfl : t = u := by
        by_contra hne
        exact hchanged (hmoved.phase_ne hne)
      cases hmoved with
      | cancelled hstopped => exact hstopped
      | _ => exact absurd rfl hother

theorem accepting_iff (hrun : Run (Fires (step maxClients)) Server.init trace s) :
    OnlyAfter Signals (Disturbs maxClients) trace ↔ OnlyAfter Signals RefusalFails trace := by
  constructor
  · intro h before p after heq hfails
    obtain ⟨s', -, hstep, -⟩ := hrun.split before p after heq
    apply h before p after heq
    have hrefused : step maxClients p.1 (.refused false) = some s' := by
      rw [Fires, hfails] at hstep
      exact hstep
    simp only [step] at hrefused
    split at hrefused <;> cases hrefused
    next hrefusing => exact .ends hstep (by simp [hrefusing]) rfl
  · intro h
    apply h.trans
    intro before p after heq hdisturbs
    obtain ⟨-, hbefore, -, -⟩ := hrun.split before p after heq
    cases hdisturbs with
    | ends hstep hrunning hstopped => exact .inl (signals_of_ends hstep hrunning hstopped)
    | cancels hstep hthere hother hchanged =>
        exact .inr (signals_of_stopped hbefore (stopped_of_cancels hstep hthere hother hchanged))

end RustCourse.Lesson10Parallel

/-! ## The three servers -/

namespace RustCourse

open Transition

/-- **What ends the accept loops.**  In every run of the three servers, the accept loop ends
and handlers are cancelled only after the shutdown signal if and only if no write of
"Server is full" fails before it. -/
theorem accepting_until_signal (maxClients : ℕ) :
    (∀ trace s,
      Run (Fires (Lesson08.step maxClients)) Lesson08.Server.init trace s →
      (OnlyAfter Lesson08.Signals (Lesson08.Disturbs maxClients) trace ↔
        OnlyAfter Lesson08.Signals Lesson08.RefusalFails trace)) ∧
    (∀ trace s,
      Run (Fires (Lesson10.step maxClients)) Lesson10.Server.init trace s →
      (OnlyAfter Lesson10.Signals (Lesson10.Disturbs maxClients) trace ↔
        OnlyAfter Lesson10.Signals Lesson10.RefusalFails trace)) ∧
    ∀ trace s,
      Run (Fires (Lesson10Parallel.step maxClients)) Lesson10Parallel.Server.init trace s →
      (OnlyAfter Lesson10Parallel.Signals (Lesson10Parallel.Disturbs maxClients) trace ↔
        OnlyAfter Lesson10Parallel.Signals Lesson10Parallel.RefusalFails trace) :=
  ⟨fun _ _ => Lesson08.accepting_iff, fun _ _ => Lesson10.accepting_iff,
    fun _ _ => Lesson10Parallel.accepting_iff⟩

/-- A client joins, another one is refused, and then the server is told to stop. -/
theorem accepting_until_signal_stop :
    (∃ trace s, Run (Fires (Lesson08.step 1)) Lesson08.Server.init trace s ∧
      s.terminated = true ∧ OnlyAfter Lesson08.Signals (Lesson08.Disturbs 1) trace) ∧
    (∃ trace s, Run (Fires (Lesson10.step 0)) Lesson10.Server.init trace s ∧
      s.acceptor = .stopped ∧ OnlyAfter Lesson10.Signals (Lesson10.Disturbs 0) trace) ∧
    ∃ trace s, Run (Fires (Lesson10Parallel.step 1)) Lesson10Parallel.Server.init trace s ∧
      s.acceptor = .stopped ∧
      OnlyAfter Lesson10Parallel.Signals (Lesson10Parallel.Disturbs 1) trace := by
  refine ⟨?_, ?_, ?_⟩
  -- a client joins, a second one is refused, and the server is told to stop
  · obtain ⟨trace, s, hrun, hp⟩ := exists_run_of_replay (Lesson08.step 1) Lesson08.Server.init
      (Lesson08.connects 0 ++ Lesson08.joins 0 "a" ++ Lesson08.connects 1 ++
        [.acceptor (.refused true), .drop .start])
      (fun r => decide (r.2.terminated = true ∧
        ∀ p ∈ r.1, p.2 ≠ .acceptor (.refused false)))
      (by decide +kernel)
    obtain ⟨hterminated, hrefused⟩ := of_decide_eq_true hp
    exact ⟨trace, s, hrun, hterminated,
      ((accepting_until_signal 1).1 trace s hrun).mpr (.of_never hrefused)⟩
  · obtain ⟨trace, s, hrun, hp⟩ := exists_run_of_replay (Lesson10.step 0) Lesson10.Server.init
      [.accept 0, .recv 0 (.msg (.join "a")) [], .wrote 0 true, .accept 1, .refused true, .stop]
      (fun r => decide (r.2.acceptor = .stopped ∧ ∀ p ∈ r.1, p.2 ≠ .refused false))
      (by decide +kernel)
    obtain ⟨hstopped, hrefused⟩ := of_decide_eq_true hp
    exact ⟨trace, s, hrun, hstopped,
      ((accepting_until_signal 0).2.1 trace s hrun).mpr (.of_never hrefused)⟩
  · obtain ⟨trace, s, hrun, hp⟩ := exists_run_of_replay (Lesson10Parallel.step 1)
      Lesson10Parallel.Server.init
      ([.accept 0] ++ Lesson10Parallel.joins 0 "a" ++ [.accept 1, .refused true, .stop])
      (fun r => decide (r.2.acceptor = .stopped ∧ ∀ p ∈ r.1, p.2 ≠ .refused false))
      (by decide +kernel)
    obtain ⟨hstopped, hrefused⟩ := of_decide_eq_true hp
    exact ⟨trace, s, hrun, hstopped,
      ((accepting_until_signal 1).2.2 trace s hrun).mpr (.of_never hrefused)⟩

/-- A refused client resets its connection, and nobody has told the server to stop: the
accept loop ends, and where the handlers are tasks, the one of the other client with it. -/
theorem broken_refusal_ends_accept_loop :
    (∃ trace s, Run (Fires (Lesson08.step 1)) Lesson08.Server.init trace s ∧
      s.acceptor = .ended ∧ ¬ OnlyAfter Lesson08.Signals (Lesson08.Disturbs 1) trace) ∧
    (∃ trace s, Run (Fires (Lesson10.step 0)) Lesson10.Server.init trace s ∧
      s.acceptor = .stopped ∧ (s.task 0).phase = .ended ∧
      ¬ OnlyAfter Lesson10.Signals (Lesson10.Disturbs 0) trace) ∧
    ∃ trace s, Run (Fires (Lesson10Parallel.step 1)) Lesson10Parallel.Server.init trace s ∧
      s.acceptor = .stopped ∧ s.phase 0 = .ended ∧
      ¬ OnlyAfter Lesson10Parallel.Signals (Lesson10Parallel.Disturbs 1) trace := by
  refine ⟨?_, ?_, ?_⟩
  -- the same, but the refused client has a broken socket
  · obtain ⟨trace, s, hrun, hp⟩ := exists_run_of_replay (Lesson08.step 1) Lesson08.Server.init
      (Lesson08.connects 0 ++ Lesson08.joins 0 "a" ++ Lesson08.connects 1 ++
        [.acceptor (.refused false)])
      (fun r => decide (r.2.acceptor = .ended ∧
        (∃ p ∈ r.1, p.2 = .acceptor (.refused false)) ∧ ∀ p ∈ r.1, p.2 ≠ .drop .start))
      (by decide +kernel)
    obtain ⟨hended, ⟨p, hp, hfails⟩, hnever⟩ := of_decide_eq_true hp
    refine ⟨trace, s, hrun, hended, fun h => ?_⟩
    obtain ⟨q, hq, hsignals⟩ := ((Lesson08.accepting_iff hrun).mp h).signal hp hfails
    exact hnever q hq hsignals
  · obtain ⟨trace, s, hrun, hp⟩ := exists_run_of_replay (Lesson10.step 0) Lesson10.Server.init
      [.accept 0, .recv 0 (.msg (.join "a")) [], .wrote 0 true, .accept 1, .refused false]
      (fun r => decide (r.2.acceptor = .stopped ∧ (r.2.task 0).phase = .ended ∧
        (∃ p ∈ r.1, p.2 = .refused false) ∧ ∀ p ∈ r.1, p.2 ≠ .stop))
      (by decide +kernel)
    obtain ⟨hstopped, hended, ⟨p, hp, hfails⟩, hnever⟩ := of_decide_eq_true hp
    refine ⟨trace, s, hrun, hstopped, hended, fun h => ?_⟩
    obtain ⟨q, hq, hsignals⟩ := ((Lesson10.accepting_iff hrun).mp h).signal hp hfails
    exact hnever q hq hsignals
  · obtain ⟨trace, s, hrun, hp⟩ := exists_run_of_replay (Lesson10Parallel.step 1)
      Lesson10Parallel.Server.init
      ([.accept 0] ++ Lesson10Parallel.joins 0 "a" ++ [.accept 1, .refused false, .cancel 0])
      (fun r => decide (r.2.acceptor = .stopped ∧ r.2.phase 0 = .ended ∧
        (∃ p ∈ r.1, p.2 = .refused false) ∧ ∀ p ∈ r.1, p.2 ≠ .stop))
      (by decide +kernel)
    obtain ⟨hstopped, hended, ⟨p, hp, hfails⟩, hnever⟩ := of_decide_eq_true hp
    refine ⟨trace, s, hrun, hstopped, hended, fun h => ?_⟩
    obtain ⟨q, hq, hsignals⟩ := ((Lesson10Parallel.accepting_iff hrun).mp h).signal hp hfails
    exact hnever q hq hsignals

end RustCourse
