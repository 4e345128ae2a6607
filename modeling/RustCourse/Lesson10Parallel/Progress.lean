import Mathlib.Data.Prod.Lex
import RustCourse.Lesson10Parallel.Steps
import RustCourse.Lib.WaitGraph

/-!
# No deadlock among the locks of the lesson 10_parallel server

A handler that serves a request keeps the read guard of the table while it waits for the
writers, one after the other; the handlers that join or leave queue for the write guard
behind it, and they hold up every later reader.

What is in the queues can be read off the phases (`Locked`): a handler that holds a writer
waits for nothing, and one that holds the table waits for a writer at most.  So the locks
are always taken in this order, and with the place in the queue it is a rank that every
wait decreases (`locks_progress`).

## Strategy

Mutual exclusion and order are facts about lines (`Lib/FairLock`), once the lines are known to
be what the phases say.  For progress take a waiting handler and follow whom it waits for: the
one before it in the line, with the guard or without.  `rank` decreases along the way, so it
ends at a handler that can go on (`exists_continues`).
-/

namespace RustCourse.Lesson10Parallel

open Chat Transition WaitGraph Relation

/-! ## Who stands in which queue -/

/-- The work is done under the read guard of the table. -/
def Work.reads : Work → Bool
  | .send _ _ _ _ _ => true
  | _ => false

theorem Work.lock_of_reads {work : Work} {self : TaskId} (h : work.reads = true) :
    work.lock self ≠ .clients := by
  cases work <;> simp_all [Work.reads, Work.lock]

namespace Phase

/-- The locks it has or waits for. -/
def wants (self : TaskId) : Phase → List (LockId × Mode)
  | .doing work stage =>
      (if stage = .asking then [] else [(work.lock self, work.mode)]) ++
        if work.reads then [(.clients, .shared)] else []
  | .reacted _ _ => [(.clients, .shared)]
  | _ => []

/-- The locks it has. -/
def holds (self : TaskId) : Phase → List LockId
  | .doing work stage =>
      (if stage = .holding then [work.lock self] else []) ++
        if work.reads then [.clients] else []
  | .reacted _ _ => [.clients]
  | _ => []

end Phase

/-- The queues are as the phases say, and who goes on with a guard was admitted. -/
structure Locked (s : Server) : Prop where
  line : ∀ id t mode, (t, mode) ∈ (s.lock id).line ↔ (id, mode) ∈ (s.phase t).wants t
  guard : ∀ id t, id ∈ (s.phase t).holds t → (s.lock id).Admits t

variable {maxClients : ℕ} {trace : List (Server × Label)} {s s' : Server} {t u : TaskId}
  {l : Label}

namespace Phase

variable {work : Work} {name : String} {bail : Bool} {got : Received}
  {sends : List (TaskId × ServerToClientMsg)}

@[simp] theorem wants_asking :
    (doing work .asking).wants t = if work.reads then [(.clients, .shared)] else [] := rfl

@[simp] theorem wants_queued : (doing work .queued).wants t =
    (work.lock t, work.mode) :: if work.reads then [(.clients, .shared)] else [] := rfl

@[simp] theorem wants_holding : (doing work .holding).wants t =
    (work.lock t, work.mode) :: if work.reads then [(.clients, .shared)] else [] := rfl

@[simp] theorem wants_reacted : (reacted name bail).wants t = [(.clients, .shared)] := rfl

@[simp] theorem wants_absent : absent.wants t = [] := rfl

@[simp] theorem wants_joining : joining.wants t = [] := rfl

@[simp] theorem wants_receiving : (receiving name).wants t = [] := rfl

@[simp] theorem wants_ended : ended.wants t = [] := rfl

@[simp] theorem wants_joinClient : (joinClient got).wants t = [] := by
  unfold joinClient
  split <;> rfl

@[simp] theorem wants_handleClient : (handleClient name got).wants t = [] := by
  cases got <;> rfl

@[simp] theorem wants_reacting : (reacting name bail sends).wants t = [(.clients, .shared)] := by
  cases sends <;> rfl

@[simp] theorem holds_asking :
    (doing work .asking).holds t = if work.reads then [.clients] else [] := rfl

@[simp] theorem holds_queued :
    (doing work .queued).holds t = if work.reads then [.clients] else [] := rfl

@[simp] theorem holds_holding :
    (doing work .holding).holds t = work.lock t :: if work.reads then [.clients] else [] := rfl

@[simp] theorem holds_reacted : (reacted name bail).holds t = [.clients] := rfl

@[simp] theorem holds_absent : absent.holds t = [] := rfl

@[simp] theorem holds_joining : joining.holds t = [] := rfl

@[simp] theorem holds_receiving : (receiving name).holds t = [] := rfl

@[simp] theorem holds_ended : ended.holds t = [] := rfl

@[simp] theorem holds_joinClient : (joinClient got).holds t = [] := by
  unfold joinClient
  split <;> rfl

@[simp] theorem holds_handleClient : (handleClient name got).holds t = [] := by
  cases got <;> rfl

@[simp] theorem holds_reacting : (reacting name bail sends).holds t = [.clients] := by
  cases sends <;> rfl

end Phase

/-! ## The queues, step by step -/

/-- A handler asks for a lock that it does not have yet. -/
theorem Locked.new_request (h : Locked s) {work : Work} (hphase : s.phase t = .doing work .asking)
    (mode : Mode) : (t, mode) ∉ (s.lock (work.lock t)).line := by
  rw [h.line, hphase]
  cases work <;> simp [Phase.wants, Work.reads, Work.lock]

/-- A step of a handler changes the locks for nobody else. -/
theorem Moved.lock (hmoved : Moved s t l s') (h : Locked s) (id : LockId) :
    (s.lock id).Changed t (s'.lock id) := by
  -- giving a guard back is a change of this lock, or of another one
  have hrelease : ∀ id', (s.lock id).Changed t ((s.unlock t id').lock id) := by
    intro id'
    rw [Server.unlock_lock]
    split
    · next hid =>
        subst hid
        exact .released
    · exact .same
  cases hmoved with
  | timedOut | joined | received | granted | reacts => exact .same
  | @requested work hphase =>
      rw [Server.setPhase_lock, Server.enqueue_lock]
      split
      · next hid =>
          subst hid
          exact .requested (h.new_request hphase)
      · exact .same
  | taken | unused | inserted | returned | bailed | left => exact hrelease .clients
  | refused | welcomed | unwelcomed => exact hrelease (.writer t)
  | @sent name connection => exact hrelease (.writer connection)
  | @unsent name connection =>
      rw [Server.setPhase_lock, Server.unlock_lock]
      split
      · next hid =>
          subst hid
          rw [Server.unlock_lock, if_neg (by simp)]
          exact .released
      · exact hrelease (.writer connection)
  | cancelled => exact .released

/-- The handler that moves stands in the queues its new phase says. -/
theorem Moved.wants (hmoved : Moved s t l s') (h : Locked s) (id : LockId) (mode : Mode) :
    (t, mode) ∈ (s'.lock id).line ↔ (id, mode) ∈ (s'.phase t).wants t := by
  have hbefore := h.line id t mode
  cases hmoved with
  | timedOut hphase | joined hphase | received hphase =>
      rw [hphase] at hbefore
      simpa [Work.reads] using hbefore
  -- the only step that enters a queue
  | @requested work hphase =>
      rw [hphase] at hbefore
      by_cases hid : id = work.lock t
      · subst hid
        simp [FairLock.mem_request (h.new_request hphase), hbefore, or_comm]
      · simpa [hid] using hbefore
  | granted hphase | reacts hphase =>
      rw [hphase] at hbefore
      simpa [Work.reads, Work.lock, Work.mode] using hbefore
  -- the guard of `clients` is dropped, and with it the wish for it
  | taken hphase | unused hphase | inserted hphase | returned hphase | bailed hphase
  | left hphase =>
      rw [hphase] at hbefore
      by_cases hid : id = .clients
      · simp [hid, FairLock.mem_release, Work.reads]
      · simpa [hid, Work.reads, Work.lock] using hbefore
  | refused hphase | welcomed hphase | unwelcomed hphase =>
      rw [hphase] at hbefore
      by_cases hid : id = .writer t
      · simp [hid, FairLock.mem_release, Work.reads]
      · simpa [hid, Work.reads, Work.lock] using hbefore
  | @sent name connection msg rest bail hphase =>
      rw [hphase] at hbefore
      by_cases hid : id = .writer connection
      · simp [hid, FairLock.mem_release]
      · simpa [hid, Work.reads, Work.lock] using hbefore
  -- both guards are dropped at once: the `?` leaves the function
  | @unsent name connection msg rest bail hphase =>
      rw [hphase] at hbefore
      by_cases hid : id = .clients
      · simp [hid, FairLock.mem_release, Work.reads]
      · by_cases hwriter : id = .writer connection
        · simp [hwriter, FairLock.mem_release, Work.reads]
        · simpa [hid, hwriter, Work.reads, Work.lock] using hbefore
  | cancelled => simp [FairLock.mem_release]

/-- The handler that moves was admitted to what it has then. -/
theorem Moved.holds (hmoved : Moved s t l s') (h : Locked s) (id : LockId)
    (hid : id ∈ (s'.phase t).holds t) : (s'.lock id).Admits t := by
  have hbefore := h.guard id t
  cases hmoved with
  | @requested work hphase =>
      simp only [Server.setPhase_phase, if_true, Phase.holds_queued, List.mem_ite_nil_right,
        List.mem_singleton] at hid
      obtain ⟨hreads, rfl⟩ := hid
      have hother : LockId.clients ≠ work.lock t := (work.lock_of_reads hreads).symm
      rw [hphase] at hbefore
      simpa [hother] using hbefore (by simp [hreads])
  | @granted work hphase hadmits =>
      simp only [Server.setPhase_phase, if_true, Phase.holds_holding, List.mem_cons] at hid
      rcases hid with rfl | hid
      · exact hadmits
      · rw [hphase] at hbefore
        exact hbefore hid
  | reacts hphase =>
      simp only [Server.setPhase_phase, if_true, Phase.holds_reacting, List.mem_singleton] at hid
      subst hid
      rw [hphase] at hbefore
      exact hbefore (by simp [Work.lock])
  | sent hphase =>
      simp only [Server.setPhase_phase, if_true, Phase.holds_reacting, List.mem_singleton] at hid
      subst hid
      rw [hphase] at hbefore
      simpa using hbefore (by simp [Work.reads])
  | _ => simp [Work.reads] at hid

theorem Locked.moved (h : Locked s) (hmoved : Moved s t l s') : Locked s' where
  line id u mode := by
    by_cases hu : u = t
    · subst hu
      exact hmoved.wants h id mode
    · rw [(hmoved.lock h id).mem_iff hu, hmoved.phase_ne hu, h.line]
  guard id u hid := by
    by_cases hu : u = t
    · subst hu
      exact hmoved.holds h id hid
    · rw [hmoved.phase_ne hu] at hid
      exact (hmoved.lock h id).admits hu (h.guard id u hid)

theorem Locked.step (h : Locked s) (hstep : Stepped maxClients s l s') : Locked s' := by
  cases hstep with
  | @spawned t _ habsent _ =>
      constructor
      · intro id u mode
        by_cases hu : u = t
        · simpa [hu, habsent] using h.line id t mode
        · simpa [hu] using h.line id u mode
      · intro id u hid
        by_cases hu : u = t
        · simp [hu] at hid
        · exact h.guard id u (by simpa [hu] using hid)
  | turnedAway | refusal | reaped | stopped => exact ⟨h.line, h.guard⟩
  | moved hmoved => exact h.moved hmoved

theorem locked_of_run (hrun : Run (Fires (step maxClients)) Server.init trace s) : Locked s :=
  hrun.invariant ⟨by simp [Server.init], by simp [Server.init]⟩ fun _ _ _ h hstep =>
    h.step (stepped_of_step hstep)

/-- **Guards exclude each other**: two handlers have the same lock at most if it is the
table and both read it. -/
theorem guards_exclude (h : Locked s) {id : LockId} (ht : id ∈ (s.phase t).holds t)
    (hu : id ∈ (s.phase u).holds u) (hne : t ≠ u) :
    id = .clients ∧ (t, Mode.shared) ∈ (s.lock id).line := by
  have hshared : (t, Mode.shared) ∈ (s.lock id).line :=
    (h.guard id t ht).shared (h.guard id u hu) hne
  refine ⟨?_, hshared⟩
  rw [h.line] at hshared
  cases hphase : s.phase t with
  | absent | joining | receiving | ended => simp [hphase] at hshared
  | reacted => simpa [hphase] using hshared
  | doing work stage =>
      cases work <;> cases stage <;>
        simp_all [Work.lock, Work.mode, Work.reads]

/-! ## Who waits for whom -/

/-- It waits for a lock. -/
def Waiting (s : Server) (t : TaskId) : Prop :=
  ∃ work, s.phase t = .doing work .queued

/-- It waits for a lock that it can be granted. -/
def Admitted (s : Server) (t : TaskId) : Prop :=
  ∃ work, s.phase t = .doing work .queued ∧ (s.lock (work.lock t)).Admits t

/-- `t` waits in a queue in which `u` stands before it, with the guard or without. -/
def Awaits (s : Server) (t u : TaskId) : Prop :=
  ∃ work mode, s.phase t = .doing work .queued ∧ (u, mode) ∈ (s.lock (work.lock t)).ahead t

/-- A step of the handler that needs nobody else, if its write completes. -/
inductive Label.Own (t : TaskId) : Label → Prop
  | request : Own t (.request t)
  | grant : Own t (.grant t)
  | act {order} : Own t (.act t order)
  | wrote : Own t (.wrote t true)

/-- It can go on. -/
def Continues (maxClients : ℕ) (s : Server) (t : TaskId) : Prop :=
  ∃ l, l.Own t ∧ (step maxClients s l).isSome

/-- How far a handler is from what it waits for: the table is behind the writers, and in
a queue the place counts. -/
def rank (s : Server) (t : TaskId) : ℕ ×ₗ ℕ :=
  match s.phase t with
  | .doing work .queued =>
      toLex (if work.lock t = .clients then 2 else 1, ((s.lock (work.lock t)).ahead t).length)
  | _ => toLex (0, 0)

/-- A handler with something to do goes on unless it waits for a lock. -/
theorem continues_of_not_queued {work : Work} {stage : Stage}
    (hphase : s.phase t = .doing work stage) (hstage : stage ≠ .queued) :
    Continues maxClients s t := by
  cases stage with
  | asking => exact ⟨.request t, .request, by simp [step, hphase]⟩
  | queued => exact absurd rfl hstage
  | holding =>
      cases work with
      | check | insert | leave => exact ⟨.act t [], .act, by simp [step, act, hphase]⟩
      | react name msg =>
          obtain ⟨order, horder⟩ := s.clients.exists_enumerates
          exact ⟨.act t order, .act, by simp [step, act, hphase, horder]⟩
      | refuse | welcome | send => exact ⟨.wrote t true, .wrote, by simp [step, wrote, hphase]⟩

private theorem continues_of_admitted (h : Admitted s t) : Continues maxClients s t := by
  obtain ⟨work, hphase, hadmits⟩ := h
  exact ⟨.grant t, .grant, by simp [step, hphase, hadmits]⟩

private theorem continues_of_reacted {name : String} {bail : Bool}
    (hphase : s.phase t = .reacted name bail) : Continues maxClients s t :=
  ⟨.act t [], .act, by simp [step, act, hphase]⟩

/-- Whoever stands first in a queue goes on, unless it has the lock and waits for another. -/
theorem continues_of_first (h : Locked s) {id : LockId} {mode : Mode}
    {rest : List (TaskId × Mode)} (hfirst : (s.lock id).line = (u, mode) :: rest) :
    (¬ Waiting s u ∨ Admitted s u) ∧ Continues maxClients s u ∨
      id = .clients ∧ ∃ work, s.phase u = .doing work .queued ∧ work.lock u ≠ .clients := by
  have hwants : (id, mode) ∈ (s.phase u).wants u := by
    rw [← h.line, hfirst]
    exact List.mem_cons_self
  cases hphase : s.phase u with
  | absent | joining | receiving | ended => simp [hphase] at hwants
  | reacted name bail =>
      exact .inl ⟨.inl (by simp [Waiting, hphase]), continues_of_reacted hphase⟩
  | doing work stage =>
      by_cases hstage : stage = .queued
      · subst hstage
        by_cases hid : work.lock u = id
        · have hadmitted : Admitted s u :=
            ⟨work, hphase, by rw [hid]; exact FairLock.admits_of_first hfirst⟩
          exact .inl ⟨.inr hadmitted, continues_of_admitted hadmitted⟩
        · rw [hphase, Phase.wants_queued, List.mem_cons, List.mem_ite_nil_right] at hwants
          rcases hwants with heq | ⟨hreads, heq⟩
          · exact absurd (congrArg Prod.fst heq).symm hid
          · obtain rfl : id = .clients := congrArg Prod.fst (List.mem_singleton.mp heq)
            exact .inr ⟨rfl, work, rfl, hid⟩
      · exact .inl ⟨.inl (by simp [Waiting, hphase, hstage]),
          continues_of_not_queued hphase hstage⟩

/-- A handler that waits is the first in its queue or waits for the first. -/
theorem awaits_first (h : Locked s) {work : Work} (hphase : s.phase t = .doing work .queued) :
    ∃ u mode rest, (s.lock (work.lock t)).line = (u, mode) :: rest ∧
      ReflTransGen (Awaits s) t u := by
  have hmem : (t, work.mode) ∈ (s.lock (work.lock t)).line := by simp [h.line, hphase]
  cases hline : (s.lock (work.lock t)).line with
  | nil => simp [hline] at hmem
  | cons party rest =>
      refine ⟨party.1, party.2, rest, rfl, ?_⟩
      by_cases hfirst : party.1 = t
      · rw [hfirst]
      · exact .single ⟨work, party.2, hphase, FairLock.first_ahead hline hfirst⟩

/-- Every wait leads to a handler that goes on. -/
theorem exists_continues (h : Locked s) (hwaiting : Waiting s t) :
    ∃ u, ReflTransGen (Awaits s) t u ∧ (¬ Waiting s u ∨ Admitted s u) ∧
      Continues maxClients s u := by
  obtain ⟨work, hphase⟩ := hwaiting
  obtain ⟨u, mode, rest, hline, hpath⟩ := awaits_first h hphase
  rcases continues_of_first h hline with hgoes | ⟨-, work', hphase', hwriter⟩
  · exact ⟨u, hpath, hgoes⟩
  · -- it holds the table and waits for a writer, and whoever has that waits for nothing
    obtain ⟨v, mode', rest', hline', hpath'⟩ := awaits_first h hphase'
    rcases continues_of_first h hline' with hgoes | ⟨htable, -⟩
    · exact ⟨v, hpath.trans hpath', hgoes⟩
    · exact absurd htable hwriter

private theorem rank_queued {work : Work} (hphase : s.phase t = .doing work .queued) :
    rank s t = toLex (if work.lock t = .clients then 2 else 1,
      ((s.lock (work.lock t)).ahead t).length) := by
  simp [rank, hphase]

private theorem rank_of_not_waiting (h : ¬ Waiting s t) : rank s t = toLex (0, 0) := by
  unfold rank
  split
  · next work hphase => exact absurd ⟨work, hphase⟩ h
  · rfl

/-- Every wait goes to a handler of a smaller rank. -/
theorem rank_lt (h : Locked s) (hawaits : Awaits s t u) : rank s u < rank s t := by
  obtain ⟨work, mode, hphase, hahead⟩ := hawaits
  rw [rank_queued hphase]
  by_cases hwaiting : Waiting s u
  · obtain ⟨work', hphase'⟩ := hwaiting
    have hwants : (work.lock t, mode) ∈ (s.phase u).wants u :=
      (h.line _ u mode).mp (FairLock.mem_line_of_ahead hahead)
    rw [rank_queued hphase', Prod.Lex.toLex_lt_toLex]
    rw [hphase', Phase.wants_queued, List.mem_cons, List.mem_ite_nil_right] at hwants
    rcases hwants with heq | ⟨hreads, heq⟩
    · -- the same queue, and a place further ahead
      have hlock : work'.lock u = work.lock t := (congrArg Prod.fst heq).symm
      rw [hlock]
      exact .inr ⟨rfl, FairLock.length_ahead_lt hahead⟩
    · -- `u` holds the table, which `t` waits for, and waits for a writer
      have htable : work.lock t = .clients := congrArg Prod.fst (List.mem_singleton.mp heq)
      left
      simp [htable, Work.lock_of_reads hreads]
  · rw [rank_of_not_waiting hwaiting, Prod.Lex.toLex_lt_toLex]
    left
    dsimp only
    split <;> omega

/-! ## Nobody is stuck -/

variable (maxClients) in
/-- **No deadlock.**  In every reachable state, whoever waits for a lock waits, through
others, for a handler that waits for none or can be granted the lock it waits for, and
that can go on; and nobody waits, through others, for itself. -/
theorem locks_progress (hrun : Run (Fires (step maxClients)) Server.init trace s) :
    (∀ t, Waiting s t → ∃ u, ReflTransGen (Awaits s) t u ∧ (¬ Waiting s u ∨ Admitted s u) ∧
      Continues maxClients s u) ∧ Acyclic (Awaits s) :=
  have h := locked_of_run hrun
  ⟨fun _ => exists_continues h, .of_rank (rank s) fun _ _ => rank_lt h⟩

/-- A handler reads the table, and another one waits for the write guard. -/
theorem locks_progress_insert :
    ∃ trace s, Run (Fires (step 2)) Server.init trace s ∧ Awaits s 1 0 ∧
      ∃ u, ReflTransGen (Awaits s) 1 u ∧ (¬ Waiting s u ∨ Admitted s u) ∧ Continues 2 s u := by
  obtain ⟨trace, s, hrun, hp⟩ := exists_run_of_replay (step 2) Server.init
    ([.accept 0, .accept 1] ++ joins 0 "a" ++ [.recv 0 (.msg .ping), .request 0, .grant 0] ++
      greets 1 "b" ++ [.request 1])
    (fun r => decide (r.2.phase 1 = .doing (.insert "b") .queued ∧
      (0, Mode.shared) ∈ (r.2.lock .clients).ahead 1))
    (by decide +kernel)
  obtain ⟨hphase, hahead⟩ := of_decide_eq_true hp
  exact ⟨trace, s, hrun, ⟨_, _, hphase, hahead⟩, (locks_progress 2 hrun).1 1 ⟨_, hphase⟩⟩

end RustCourse.Lesson10Parallel
