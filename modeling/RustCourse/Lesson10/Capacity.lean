import RustCourse.Lesson10.Steps
import RustCourse.Lib.Roster

/-!
# How many handlers lesson 10 runs

`run_server` refuses a connection if `tasks.len() > max_clients`, so it serves one client
more than it should: with `max_clients` handlers in the `JoinSet` one more is spawned.  The
`JoinSet` is a roster of the handlers that run, which also names those that have ended and
were not reaped, so the one too many runs only if none of them has.  `capacity_iff` says
that nothing else exceeds the limit.

## Strategy

A task is put into the `JoinSet` when it is spawned and taken out when it has ended and is
reaped, so the `JoinSet` names at least the handlers that run (`Seated`), and the rules of
`Lib/Roster` say what its length tells.  The test in `run_server` bounds this length by
`max_clients` plus one.  At the accept that overfills the `JoinSet` the bound is exact only if
nobody on it has ended.
-/

namespace RustCourse.Lesson10

open Transition

/-! ## The limit -/

/-- The handler tasks that run. -/
def Server.running (s : Server) : Set TaskId :=
  {t | (s.task t).phase ≠ .absent ∧ (s.task t).phase ≠ .ended}

/-- The limit is kept in every state of the run, and a connection that finds `max_clients`
handlers running is refused. -/
structure KeepsLimit (maxClients : ℕ) (trace : List (Server × Label)) (s : Server) : Prop where
  visited : ∀ p ∈ trace, p.1.running.encard ≤ maxClients
  reached : s.running.encard ≤ maxClients
  refuses : ∀ p ∈ trace, ∀ t s', p.2 = .accept t → step maxClients p.1 p.2 = some s' →
    p.1.running.encard = maxClients → s'.acceptor = .refusing ∧ s'.running = p.1.running

/-- The step accepts a connection while there are `max_clients` tasks in the `JoinSet` and
all of them run. -/
def Overfills (maxClients : ℕ) (s : Server) (l : Label) : Prop :=
  (∃ t, l = .accept t) ∧ s.joinSet.length = maxClients ∧
    ∀ u ∈ s.joinSet, (s.task u).phase ≠ .ended

section Steps

variable {maxClients : ℕ} {s s' : Server} {l : Label} {t u : TaskId}

theorem Server.sendAll_joinSet {msg : Chat.ServerToClientMsg} (targets : List TaskId) :
    (s.sendAll msg targets).1.joinSet = s.joinSet := by
  induction targets generalizing s with
  | nil => rfl
  | cons target rest ih =>
      unfold sendAll
      split
      · rw [ih]
        rfl
      · rfl

/-- Only `accept` starts a task. -/
theorem absent_of_moved (h : Moved s l s') (habsent : (s.task u).phase = .absent) :
    (s'.task u).phase = .absent ∨ l = .accept u := by
  cases h with
  | turnedAway | refused | reaped => exact .inl habsent
  | refusalFailed | stopped => exact .inl (by simp [Server.shutDown, habsent])
  | @spawned t =>
      by_cases hu : u = t
      · exact .inr (by rw [hu])
      · exact .inl (by simp [hu, habsent])
  | delivered => exact .inl (by rw [Server.sendAll_phase, habsent])
  -- the task that moves was not absent
  | @undelivered t name msg order targets forwarded _ hphase =>
      have hu : u ≠ t := by
        rintro rfl
        simp [hphase] at habsent
      exact .inl (by rw [Server.leave_task, if_neg hu, Server.sendAll_phase, habsent])
  | @notJoined t ok hphase =>
      have hu : u ≠ t := by
        rintro rfl
        rcases hphase with ⟨reply, hphase⟩ | ⟨name, hphase, -⟩ <;> simp [hphase] at habsent
      exact .inl (by simp [hu, habsent])
  | timedOut hphase | joined hphase | unread hphase | panicked hphase | answering hphase
  | dequeued hphase | orphaned hphase | inserted hphase | answered hphase | bailed hphase
  | forwarded hphase | unforwarded hphase =>
      left
      simp only [Server.setPhase_task, Server.setTask_task, Server.finish_task, Server.leave_task,
        Server.insert_task]
      split
      · next hu =>
          subst hu
          simp [hphase] at habsent
      · exact habsent

theorem running_of_moved (h : Moved s l s') (hl : ∀ t, l ≠ .accept t) : s'.running ⊆ s.running := by
  rintro u ⟨hthere, hlive⟩
  refine ⟨fun habsent => ?_, fun hended => hlive (ended_of_moved h hended)⟩
  rcases absent_of_moved h habsent with habsent | haccept
  · exact hthere habsent
  · exact hl u haccept

/-- **What a step does to the `JoinSet`** and to the handlers that run. -/
inductive Seats (maxClients : ℕ) (s s' : Server) : Label → Prop
  | turnedAway {t : TaskId} : maxClients < s.joinSet.length → s'.acceptor = .refusing →
      s'.joinSet = s.joinSet → s'.running = s.running → Seats maxClients s s' (.accept t)
  | spawned {t : TaskId} : s.joinSet.length ≤ maxClients → (s.task t).phase = .absent →
      s'.acceptor = .listening → s'.joinSet = t :: s.joinSet →
      s'.running = insert t s.running → Seats maxClients s s' (.accept t)
  | reaped {t : TaskId} : (s.task t).phase = .ended → s'.joinSet = s.joinSet.erase t →
      s'.running ⊆ s.running → Seats maxClients s s' (.reap t)
  | cleared {l : Label} : (∀ t, l ≠ .accept t) → s'.joinSet = [] → s'.running = ∅ →
      Seats maxClients s s' l
  | quiet {l : Label} : (∀ t, l ≠ .accept t) → s'.joinSet = s.joinSet → s'.running ⊆ s.running →
      Seats maxClients s s' l

theorem running_shutDown : s.shutDown.running = ∅ := by
  ext t
  simp only [Server.running, Server.shutDown, Set.mem_ofPred_eq, Set.mem_empty_iff_false, iff_false]
  split
  · next habsent => simp [habsent]
  · simp [*]

theorem seats_of_accept (h : step maxClients s (.accept t) = some s') :
    Seats maxClients s s' (.accept t) := by
  simp only [step] at h
  split at h
  · next hidle =>
      split at h <;> cases h
      · next hfull => exact .turnedAway hfull rfl rfl rfl
      · next hroom =>
          refine .spawned (Nat.le_of_not_lt hroom) hidle.2 hidle.1 rfl ?_
          ext u
          by_cases hu : u = t <;> simp [Server.running, hu]
  · cases h

theorem ended_of_reap (h : step maxClients s (.reap t) = some s') :
    (s.task t).phase = .ended := by
  simp only [step] at h
  split at h
  · next hended => exact hended.2.2
  · cases h

theorem seats_of_step (h : step maxClients s l = some s') : Seats maxClients s s' l := by
  by_cases haccept : ∃ t, l = .accept t
  · obtain ⟨t, rfl⟩ := haccept
    exact seats_of_accept h
  · have hl : ∀ t, l ≠ .accept t := by simpa using haccept
    have hmoved := moved_of_step h
    have hrunning := running_of_moved hmoved hl
    cases hmoved with
    | turnedAway | spawned => exact absurd rfl (hl _)
    | reaped => exact .reaped (ended_of_reap h) rfl hrunning
    | refusalFailed | stopped => exact .cleared hl rfl running_shutDown
    | delivered => exact .quiet hl (Server.sendAll_joinSet _) hrunning
    | undelivered => exact .quiet hl (Server.sendAll_joinSet _) hrunning
    | _ => exact .quiet hl rfl hrunning

/-- The `JoinSet` is a roster of the handlers that run, of tasks that were started. -/
structure Seated (s : Server) : Prop where
  roster : Roster s.joinSet s.running
  started : ∀ t ∈ s.joinSet, (s.task t).phase ≠ .absent

theorem Seated.step (h : Seated s) (hstep : step maxClients s l = some s') : Seated s' := by
  have hstarted : ∀ t, (s.task t).phase ≠ .absent → (s'.task t).phase ≠ .absent := by
    intro t hthere habsent
    have hstage := stage_le_of_moved (moved_of_step hstep) t
    rw [habsent] at hstage
    cases hphase : (s.task t).phase <;> simp_all [Phase.stage]
  cases seats_of_step hstep with
  | turnedAway _ _ hjoinSet hrunning =>
      exact ⟨by rw [hjoinSet, hrunning]; exact h.roster,
        fun u hu => hstarted u (h.started u (hjoinSet ▸ hu))⟩
  | @spawned t _ habsent _ hjoinSet hrunning =>
      -- a task that is spawned was absent, and those in the `JoinSet` were not
      have hnew : t ∉ s.joinSet := fun hmem => h.started t hmem habsent
      refine ⟨?_, fun u hu => ?_⟩
      · rw [hjoinSet, hrunning]
        exact h.roster.cons hnew fun u hu => hu
      · rw [hjoinSet] at hu
        rcases List.mem_cons.mp hu with rfl | hu
        · have hlive : u ∈ s'.running := hrunning ▸ Set.mem_insert u _
          exact hlive.1
        · exact hstarted u (h.started u hu)
  | @reaped t hended hjoinSet hrunning =>
      have hleft : t ∉ s.running := fun hlive => hlive.2 hended
      refine ⟨?_, fun u hu => hstarted u (h.started u (List.mem_of_mem_erase (hjoinSet ▸ hu)))⟩
      rw [hjoinSet]
      exact (h.roster.erase hleft).mono hrunning
  | cleared _ hjoinSet hrunning =>
      refine ⟨?_, by simp [hjoinSet]⟩
      rw [hjoinSet, hrunning]
      exact .nil_empty
  | quiet _ hjoinSet hrunning =>
      refine ⟨?_, fun u hu => hstarted u (h.started u (hjoinSet ▸ hu))⟩
      rw [hjoinSet]
      exact h.roster.mono hrunning

/-- Where there is room, one more handler keeps the limit. -/
theorem Seated.encard_lt (h : Seated s) (hroom : s.joinSet.length ≤ maxClients)
    (hfits : ¬ (s.joinSet.length = maxClients ∧ ∀ u ∈ s.joinSet, (s.task u).phase ≠ .ended)) :
    s.running.encard + 1 ≤ maxClients := by
  rcases hroom.eq_or_lt with hlast | hroom
  · obtain ⟨u, hmem, hended⟩ : ∃ u ∈ s.joinSet, (s.task u).phase = .ended := by
      by_contra hnone
      exact hfits ⟨hlast, fun u hu hended => hnone ⟨u, hu, hended⟩⟩
    rw [← hlast]
    exact h.roster.encard_lt hmem fun hlive => hlive.2 hended
  · calc s.running.encard + 1
        ≤ s.joinSet.length + 1 := by gcongr; exact h.roster.encard_le
      _ ≤ maxClients := by exact_mod_cast hroom

end Steps

section Runs

variable {maxClients : ℕ} {trace : List (Server × Label)} {s : Server}

theorem seated_of_run (hrun : Run (Fires (step maxClients)) Server.init trace s) : Seated s := by
  refine hrun.invariant ?_ fun s l s' h hstep => h.step hstep
  have hnone : Server.init.running = ∅ := by
    ext t
    simp [Server.running, Server.init]
  exact ⟨hnone ▸ Roster.nil_empty, by simp [Server.init]⟩

theorem running_le_of_run (hrun : Run (Fires (step maxClients)) Server.init trace s)
    (hfits : ∀ p ∈ trace, ¬ Overfills maxClients p.1 p.2) : s.running.encard ≤ maxClients := by
  refine hrun.invariantTraceUnder (C := fun s l => ¬ Overfills maxClients s l)
    (I := fun _ s => s.running.encard ≤ maxClients) hfits ?_ ?_
  · simp [Server.running, Server.init]
  · intro trace s l s' hrun h hfits hstep
    cases seats_of_step hstep with
    | turnedAway _ _ _ hrunning => rwa [hrunning]
    | @spawned t hroom _ _ _ hrunning =>
        have hseated := seated_of_run hrun
        calc s'.running.encard
            ≤ s.running.encard + 1 := hrunning ▸ Set.encard_insert_le _ _
          _ ≤ maxClients := hseated.encard_lt hroom fun hfull => hfits ⟨⟨t, rfl⟩, hfull⟩
    | cleared _ _ hrunning => simp [hrunning]
    | reaped _ _ hrunning | quiet _ _ hrunning => exact (Set.encard_le_encard hrunning).trans h

/-! ## Every run -/

/-- **When the limit is kept.**  In a run, no more than `max_clients` handlers run at any
time and a connection that finds this many is refused, if and only if no connection is
accepted while the `JoinSet` holds exactly `max_clients` tasks and all of them run. -/
theorem capacity_iff (hrun : Run (Fires (step maxClients)) Server.init trace s) :
    KeepsLimit maxClients trace s ↔ ∀ p ∈ trace, ¬ Overfills maxClients p.1 p.2 := by
  constructor
  -- with one more than `max_clients` on the roster, one more runs
  · rintro hkeeps p hp ⟨⟨t, hl⟩, hlength, hlive⟩
    obtain ⟨before, s', -, hbefore, hstep⟩ := hrun.exists_before hp
    have hseated := seated_of_run hbefore
    have hfull : p.1.running.encard = maxClients := by
      rw [hseated.roster.encard_eq_length_iff.mpr fun u hu => ⟨hseated.started u hu, hlive u hu⟩,
        hlength]
    obtain ⟨hrefusing, -⟩ := hkeeps.refuses p hp t s' hl hstep hfull
    have hseats := seats_of_step hstep
    rw [hl] at hseats
    cases hseats with
    | turnedAway hmore => omega
    | spawned _ _ hlistening => simp [hlistening] at hrefusing
    | cleared hother | quiet hother => exact hother t rfl
  · intro hfits
    refine ⟨fun p hp => ?_, running_le_of_run hrun hfits, fun p hp t s' hl hstep hfull => ?_⟩
    · obtain ⟨before, -, hinitial, hbefore, -⟩ := hrun.exists_before hp
      exact running_le_of_run hbefore fun q hq => hfits q (hinitial.subset hq)
    -- at the limit, a connection that is not refused would overfill
    · obtain ⟨before, -, -, hbefore, -⟩ := hrun.exists_before hp
      have hseats := seats_of_step hstep
      rw [hl] at hseats
      cases hseats with
      | turnedAway _ hrefusing _ hrunning => exact ⟨hrefusing, hrunning⟩
      | spawned hroom =>
          have hlt := (seated_of_run hbefore).encard_lt hroom fun hoverfull =>
            hfits p hp ⟨⟨t, hl⟩, hoverfull⟩
          rw [hfull] at hlt
          exact absurd (by exact_mod_cast hlt : maxClients + 1 ≤ maxClients)
            (Nat.not_succ_le_self _)
      | cleared hother | quiet hother => exact absurd rfl (hother t)

/-- The only place is free again but not reaped, and taken by a second client; then the server
is full, and a third one is refused. -/
theorem capacity_iff_refused :
    ∃ trace s, Run (Fires (step 1)) Server.init trace s ∧ (s.task 1).phase = .receiving "b" ∧
      (s.task 2).phase = .absent ∧ s.acceptor = .refusing ∧ KeepsLimit 1 trace s := by
  obtain ⟨trace, s, hrun, hp⟩ := exists_run_of_replay (step 1) Server.init
    [.accept 0, .recv 0 (.msg (.join "a")) [], .wrote 0 true, .recv 0 .eof [("a", 0)],
      .accept 1, .recv 1 (.msg (.join "b")) [], .wrote 1 true, .accept 2]
    (fun r => (r.1.all fun p =>
        match p.2 with
        | .accept _ => decide (p.1.joinSet.length = 1 →
            ∃ u ∈ p.1.joinSet, (p.1.task u).phase = .ended)
        | _ => true) &&
      decide ((r.2.task 1).phase = .receiving "b" ∧ (r.2.task 2).phase = .absent ∧
        r.2.acceptor = .refusing))
    (by decide +kernel)
  simp only [Bool.and_eq_true, List.all_eq_true, decide_eq_true_eq] at hp
  obtain ⟨hsteps, hserving, habsent, hrefusing⟩ := hp
  refine ⟨trace, s, hrun, hserving, habsent, hrefusing, (capacity_iff hrun).mpr ?_⟩
  rintro p hp ⟨⟨t, hl⟩, hlength, hlive⟩
  have hstep := hsteps p hp
  simp only [hl, decide_eq_true_eq] at hstep
  obtain ⟨u, hu, hended⟩ := hstep hlength
  exact hlive u hu hended

/-- With `max_clients` set to 1, a second client is served while the first one is. -/
theorem second_client_exceeds_limit :
    ∃ trace s, Run (Fires (step 1)) Server.init trace s ∧ {0, 1} ⊆ s.running ∧
      ¬ KeepsLimit 1 trace s := by
  obtain ⟨trace, s, hrun, hp⟩ := exists_run_of_replay (step 1) Server.init
    [.accept 0, .recv 0 (.msg (.join "a")) [], .wrote 0 true, .accept 1,
      .recv 1 (.msg (.join "b")) [], .wrote 1 true]
    (fun r => decide ((r.2.task 0).phase = .receiving "a" ∧ (r.2.task 1).phase = .receiving "b"))
    (by decide +kernel)
  obtain ⟨hfirst, hsecond⟩ :
      (s.task 0).phase = .receiving "a" ∧ (s.task 1).phase = .receiving "b" :=
    of_decide_eq_true hp
  have hboth : {0, 1} ⊆ s.running := by
    rintro t (rfl | rfl)
    · simp [Server.running, hfirst]
    · simp [Server.running, hsecond]
  refine ⟨trace, s, hrun, hboth, fun hkeeps => ?_⟩
  have htwo : ({0, 1} : Set TaskId).encard = 2 := Set.encard_pair (by decide)
  have hle := (Set.encard_le_encard hboth).trans hkeeps.reached
  rw [htwo] at hle
  exact absurd (by exact_mod_cast hle : 2 ≤ 1) (by decide)

end Runs

end RustCourse.Lesson10
