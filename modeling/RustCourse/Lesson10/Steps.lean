import RustCourse.Lesson10.Server

/-!
# What one step of the lesson 10 server can do

Every later invariant speaks about the clients map and about which tasks are in
their receive loop.  As far as these two are concerned a step does one of five
things (`Effect`), and `effect_of_step` says which: it leaves both alone, a task
enters the loop and is inserted, a task leaves the loop and takes its name out of
the map, a task is dropped and its name stays, or `run_server` returns.  The reasons
for which a task leaves or is dropped are part of the statement.

`Moved` is finer and says of every step what it has done to the whole server.  A state can be
updated in few ways, and the lemmas on `setTask`, `sendAll` and their like say what each field
is afterwards, so no later proof unfolds them.
-/

namespace RustCourse.Lesson10

open Chat Transition

namespace Phase

@[simp] theorem serving_absent : absent.serving = none := rfl
@[simp] theorem serving_joining : joining.serving = none := rfl
@[simp] theorem serving_refusing (reply) : (refusing reply).serving = none := rfl
@[simp] theorem serving_welcoming (name) : (welcoming name).serving = none := rfl
@[simp] theorem serving_receiving (name) : (receiving name).serving = some name := rfl
@[simp] theorem serving_replying (name reply bail) :
    (replying name reply bail).serving = some name := rfl
@[simp] theorem serving_forwarding (name msg) : (forwarding name msg).serving = some name := rfl
@[simp] theorem serving_ended : ended.serving = none := rfl

end Phase

namespace Server

variable {s : Server} {t u : TaskId} {name : String}

/-- The username under which task `t` is in its receive loop. -/
def serving (s : Server) (t : TaskId) : Option String :=
  (s.task t).phase.serving

/-! ## Updates of one task -/

@[simp] theorem setTask_clients (task : Task) : (s.setTask t task).clients = s.clients := rfl

@[simp] theorem setTask_task (task : Task) :
    (s.setTask t task).task u = if u = t then task else s.task u := by
  simp [setTask, Function.update_apply]

@[simp] theorem setPhase_clients (phase : Phase) : (s.setPhase t phase).clients = s.clients := rfl

@[simp] theorem setPhase_task (phase : Phase) :
    (s.setPhase t phase).task u = if u = t then { s.task t with phase } else s.task u := by
  simp [setPhase]

@[simp] theorem finish_clients : (s.finish t).clients = s.clients := rfl

@[simp] theorem finish_task : (s.finish t).task u = if u = t then ⟨.ended, []⟩ else s.task u := by
  simp [finish]

@[simp] theorem leave_clients : (s.leave t name).clients = s.clients.erase name := rfl

@[simp] theorem leave_task :
    (s.leave t name).task u = if u = t then ⟨.ended, []⟩ else s.task u := by
  simp [leave]

@[simp] theorem insert_clients : (s.insert t name).clients = s.clients.insert name t := rfl

@[simp] theorem insert_task :
    (s.insert t name).task u = if u = t then ⟨.receiving name, []⟩ else s.task u := by
  simp [insert]

/-- A phase that the updated task does not have was there before the update. -/
theorem phase_of_setTask {task : Task} {phase : Phase}
    (h : ((s.setTask t task).task u).phase = phase) (hne : task.phase ≠ phase) :
    (s.task u).phase = phase := by
  by_cases hu : u = t
  · simp [hu, hne] at h
  · simpa [hu] using h

theorem phase_of_shutDown {phase : Phase} (h : (s.shutDown.task t).phase = phase)
    (hne : Phase.ended ≠ phase) : (s.task t).phase = phase := by
  simp only [shutDown] at h
  split at h
  · exact h
  · exact absurd h hne

theorem isOpen_iff : s.isOpen t = true ↔ ∃ name, s.serving t = some name := by
  simp [isOpen, serving, Option.isSome_iff_exists]

theorem hasSender_iff : s.hasSender t = true ↔ ∃ name, s.clients.lookup name = some t := by
  simp [hasSender, Finmap.lookup_eq_some_iff]

/-! ## Sending to several channels -/

section SendAll

variable {msg : ServerToClientMsg}

theorem sendAll_clients (targets : List TaskId) :
    (s.sendAll msg targets).1.clients = s.clients := by
  induction targets generalizing s with
  | nil => rfl
  | cons target rest ih =>
      unfold sendAll
      split
      · rw [ih]
        rfl
      · rfl

theorem sendAll_acceptor (targets : List TaskId) :
    (s.sendAll msg targets).1.acceptor = s.acceptor := by
  induction targets generalizing s with
  | nil => rfl
  | cons target rest ih =>
      unfold sendAll
      split
      · rw [ih]
        rfl
      · rfl

theorem sendAll_phase (targets : List TaskId) (u : TaskId) :
    ((s.sendAll msg targets).1.task u).phase = (s.task u).phase := by
  induction targets generalizing s with
  | nil => rfl
  | cons target rest ih =>
      unfold sendAll
      split
      · rw [ih]
        simp only [enqueue, setTask_task]
        split <;> simp_all
      · rfl

private theorem enqueue_isOpen : (s.enqueue t msg).isOpen u = s.isOpen u := by
  simp only [isOpen, enqueue, setTask_task]
  split <;> simp_all

/-- Sending succeeds when no receiver on the way was dropped. -/
theorem sendAll_ok (msg : ServerToClientMsg) (targets : List TaskId) :
    (s.sendAll msg targets).2 = true ↔ ∀ target ∈ targets, s.isOpen target = true := by
  induction targets generalizing s with
  | nil => simp [sendAll]
  | cons target rest ih =>
      by_cases hopen : s.isOpen target = true
      · simp [sendAll, hopen, ih, enqueue_isOpen]
      · simp [sendAll, hopen]

/-- A successful round of sends puts one copy into a channel for every time it is named. -/
theorem sendAll_queue {targets : List TaskId} (h : (s.sendAll msg targets).2 = true)
    (u : TaskId) :
    ((s.sendAll msg targets).1.task u).queue =
      (s.task u).queue ++ List.replicate (targets.count u) msg := by
  induction targets generalizing s with
  | nil => simp [sendAll]
  | cons target rest ih =>
      by_cases hopen : s.isOpen target = true
      · simp only [sendAll, hopen, if_true] at h ⊢
        rw [ih h]
        by_cases hu : u = target
        · subst hu
          simp [enqueue, List.replicate_succ]
        · simp [enqueue, hu, List.count_cons_of_ne (Ne.symm hu)]
      · simp [sendAll, hopen] at h

end SendAll

end Server

/-! ## The steps, one by one -/

/-- **What a step can do.**  One constructor for every way the code takes between two
awaits. -/
inductive Moved (s : Server) : Label → Server → Prop
  | turnedAway {t} : s.acceptor = .listening → Moved s (.accept t) { s with acceptor := .refusing }
  | spawned {t} : s.acceptor = .listening → (s.task t).phase = .absent →
      Moved s (.accept t) { s.setPhase t .joining with joinSet := t :: s.joinSet }
  | refused : s.acceptor = .refusing → Moved s (.refused true) { s with acceptor := .listening }
  | refusalFailed : Moved s (.refused false) s.shutDown
  | reaped {t} : s.acceptor = .listening →
      Moved s (.reap t) { s with joinSet := s.joinSet.erase t }
  | stopped : Moved s .stop s.shutDown
  | timedOut {t} : (s.task t).phase = .joining →
      Moved s (.timeout t) (s.setPhase t (.refusing (.error "Timed out waiting for Join")))
  | joined {t got order} : (s.task t).phase = .joining →
      Moved s (.recv t got order) (s.setPhase t (joinClient s.clients got))
  /-- the loop ends at the end of the stream or at an unreadable message -/
  | unread {t name got order} : (s.task t).phase = .receiving name → got = .err ∨ got = .eof →
      Moved s (.recv t got order) (s.leave t name)
  | panicked {t name order} : (s.task t).phase = .receiving name →
      Moved s (.recv t .panics order) (s.finish t)
  | answering {t name msg order reply bail} : (s.task t).phase = .receiving name →
      s.clients.Enumerates order → reactClientMsg s.clients order name msg = .reply reply bail →
      Moved s (.recv t (.msg msg) order) (s.setPhase t (.replying name reply bail))
  | delivered {t name msg order targets forwarded} : (s.task t).phase = .receiving name →
      s.clients.Enumerates order →
      reactClientMsg s.clients order name msg = .sends targets forwarded →
      (∀ target ∈ targets, s.isOpen target = true) →
      Moved s (.recv t (.msg msg) order) (s.sendAll forwarded targets).1
  /-- the `?` after a `channel.send` ends the loop -/
  | undelivered {t name msg order targets forwarded target} :
      (s.task t).phase = .receiving name → s.clients.Enumerates order →
      reactClientMsg s.clients order name msg = .sends targets forwarded →
      target ∈ targets → s.isOpen target = false →
      Moved s (.recv t (.msg msg) order) ((s.sendAll forwarded targets).1.leave t name)
  | dequeued {t name msg rest} : (s.task t).phase = .receiving name →
      (s.task t).queue = msg :: rest →
      Moved s (.dequeue t) (s.setTask t ⟨.forwarding name msg, rest⟩)
  /-- nobody holds the sender of the channel any more -/
  | orphaned {t name} : (s.task t).phase = .receiving name → s.hasSender t = false →
      Moved s (.dequeue t) (s.leave t name)
  | notJoined {t ok} : (∃ reply, (s.task t).phase = .refusing reply) ∨
        (∃ name, (s.task t).phase = .welcoming name ∧ ok = false) →
      Moved s (.wrote t ok) (s.finish t)
  | inserted {t name} : (s.task t).phase = .welcoming name →
      Moved s (.wrote t true) (s.insert t name)
  | answered {t name reply} : (s.task t).phase = .replying name reply false →
      Moved s (.wrote t true) (s.setPhase t (.receiving name))
  /-- the write of a reply failed, or it was the answer to a second `Join` -/
  | bailed {t ok name reply bail} : (s.task t).phase = .replying name reply bail →
      ok = false ∨ bail = true → Moved s (.wrote t ok) (s.leave t name)
  | forwarded {t name msg} : (s.task t).phase = .forwarding name msg →
      Moved s (.wrote t true) (s.setPhase t (.receiving name))
  /-- the `?` after `writer.send` returns without the `remove` -/
  | unforwarded {t name msg} : (s.task t).phase = .forwarding name msg →
      Moved s (.wrote t false) (s.finish t)

/-- The branch of the loop of `handle_client` that `reader.recv()` won. -/
theorem moved_of_received {s : Server} {t : TaskId} {name : String} {got : Received}
    {order : List (String × TaskId)} (hphase : (s.task t).phase = .receiving name)
    (horder : s.clients.Enumerates order) :
    Moved s (.recv t got order) (handleReceived s t name order got) := by
  cases got with
  | err => exact .unread hphase (.inl rfl)
  | eof => exact .unread hphase (.inr rfl)
  | panics => exact .panicked hphase
  | msg msg =>
      cases hreact : reactClientMsg s.clients order name msg with
      | reply reply bail =>
          simp only [handleReceived, hreact]
          exact .answering hphase horder hreact
      | sends targets forwarded =>
          rcases hsent : s.sendAll forwarded targets with ⟨s', ok⟩
          have hs' : s' = (s.sendAll forwarded targets).1 := by rw [hsent]
          have hok := s.sendAll_ok forwarded targets
          rw [hsent] at hok
          simp only [handleReceived, hreact, hsent]
          cases ok with
          | true =>
              rw [hs']
              exact .delivered hphase horder hreact (hok.mp rfl)
          | false =>
              have hclosed : ∃ target ∈ targets, s.isOpen target = false := by
                by_contra hall
                exact absurd (hok.mpr (by simpa using hall)) (by simp)
              obtain ⟨target, hmem, htarget⟩ := hclosed
              rw [hs']
              exact .undelivered hphase horder hreact hmem htarget

theorem moved_of_step {maxClients : ℕ} {s s' : Server} {l : Label}
    (h : step maxClients s l = some s') : Moved s l s' := by
  -- the branches of `step`, one by one
  cases l with
  | accept t =>
      simp only [step] at h
      split at h
      · next hidle =>
          split at h <;> cases h
          · exact .turnedAway hidle.1
          · exact .spawned hidle.1 hidle.2
      · cases h
  | refused ok =>
      simp only [step] at h
      split at h <;> cases h
      next hrefusing =>
        cases ok with
        | true => exact .refused hrefusing
        | false => exact .refusalFailed
  | reap t =>
      simp only [step] at h
      split at h <;> cases h
      next hended => exact .reaped hended.1
  | stop =>
      simp only [step] at h
      split at h <;> cases h
      exact .stopped
  | timeout t =>
      simp only [step] at h
      split at h <;> cases h
      next hphase => exact .timedOut hphase
  | recv t got order =>
      simp only [step] at h
      split at h
      · next hphase =>
          cases h
          exact .joined hphase
      · next name hphase =>
          split at h <;> cases h
          next horder => exact moved_of_received hphase horder
      · cases h
  | dequeue t =>
      simp only [step] at h
      split at h
      · next name msg rest hphase hqueue =>
          cases h
          exact .dequeued hphase hqueue
      · next name hphase hqueue =>
          split at h
          · cases h
          · next hsender =>
              cases h
              exact .orphaned hphase (by simpa using hsender)
      · cases h
  | wrote t ok =>
      simp only [step] at h
      split at h
      · next reply hphase =>
          cases h
          exact .notJoined (.inl ⟨reply, hphase⟩)
      · next name hphase =>
          cases h
          cases ok with
          | true => exact .inserted hphase
          | false => exact .notJoined (.inr ⟨name, hphase, rfl⟩)
      · next name reply bail hphase =>
          cases h
          cases ok <;> cases bail
          · exact .bailed hphase (.inl rfl)
          · exact .bailed hphase (.inl rfl)
          · exact .answered hphase
          · exact .bailed hphase (.inr rfl)
      · next name msg hphase =>
          cases h
          cases ok with
          | true => exact .forwarded hphase
          | false => exact .unforwarded hphase
      · cases h

/-! ## A task only moves forward -/

/-- How far a task has come: accepted, its `Join` read, in its loop, ended. -/
def Phase.stage : Phase → ℕ
  | .absent => 0
  | .joining => 1
  | .refusing _ => 2
  | .welcoming _ => 2
  | .receiving _ => 3
  | .replying _ _ _ => 3
  | .forwarding _ _ => 3
  | .ended => 4

theorem Phase.stage_le (phase : Phase) : phase.stage ≤ 4 := by
  cases phase <;> simp [stage]

theorem Phase.eq_ended {phase : Phase} (h : 4 ≤ phase.stage) : phase = .ended := by
  cases phase <;> simp [stage] at h ⊢

theorem joinClient_stage (clients : HashMap String TaskId) (got : Received) :
    2 ≤ (joinClient clients got).stage := by
  unfold joinClient
  split <;> (try split) <;> simp [Phase.stage]

theorem stage_setTask {s : Server} {t : TaskId} {task : Task}
    (h : (s.task t).phase.stage ≤ task.phase.stage) (u : TaskId) :
    (s.task u).phase.stage ≤ ((s.setTask t task).task u).phase.stage := by
  by_cases hu : u = t
  · subst hu
    simpa using h
  · simp [hu]

theorem stage_le_of_moved {s s' : Server} {l : Label} (h : Moved s l s') (u : TaskId) :
    (s.task u).phase.stage ≤ (s'.task u).phase.stage := by
  cases h with
  | turnedAway | refused | reaped => exact le_rfl
  | refusalFailed | stopped =>
      simp only [Server.shutDown]
      split
      · exact le_rfl
      · exact Phase.stage_le _
  | @joined t got order hphase =>
      refine stage_setTask ?_ u
      rw [hphase]
      exact le_trans (show Phase.joining.stage ≤ 2 by decide) (joinClient_stage s.clients got)
  | delivered => rw [Server.sendAll_phase]
  | @undelivered t _ _ _ targets forwarded =>
      have hsent : ((s.sendAll forwarded targets).1.task u).phase = (s.task u).phase :=
        Server.sendAll_phase targets u
      rw [← hsent]
      exact stage_setTask (Phase.stage_le _) u
  | notJoined | unread | panicked | orphaned | bailed | unforwarded =>
      exact stage_setTask (Phase.stage_le _) u
  | spawned _ hphase | timedOut hphase | answering hphase | dequeued hphase | inserted hphase
  | answered hphase | forwarded hphase => exact stage_setTask (by simp [hphase, Phase.stage]) u

theorem ended_of_moved {s s' : Server} {l : Label} (h : Moved s l s') {u : TaskId}
    (hu : (s.task u).phase = .ended) : (s'.task u).phase = .ended := by
  have := stage_le_of_moved h u
  rw [hu] at this
  exact Phase.eq_ended this

/-! ## The effect on the map and on the loops -/

/-- The reasons for which a task breaks out of the loop of `handle_client` and runs
the `remove` after it. -/
inductive Leaves (s : Server) : Label → TaskId → Prop
  | unread {t got order} : got = .err ∨ got = .eof → Leaves s (.recv t got order) t
  | undelivered {t name msg order targets forwarded target} :
      (s.task t).phase = .receiving name → s.clients.Enumerates order →
      reactClientMsg s.clients order name msg = .sends targets forwarded →
      target ∈ targets → s.isOpen target = false → Leaves s (.recv t (.msg msg) order) t
  | orphaned {t} : s.hasSender t = false → Leaves s (.dequeue t) t
  | bailed {t ok name reply bail} : (s.task t).phase = .replying name reply bail →
      ok = false ∨ bail = true → Leaves s (.wrote t ok) t

/-- The reasons for which a task ends inside the loop of `handle_client`, without the
`remove`. -/
inductive Drops (s : Server) : Label → TaskId → Prop
  | panicked {t name order} : (s.task t).phase = .receiving name → Drops s (.recv t .panics order) t
  | unforwarded {t name msg} : (s.task t).phase = .forwarding name msg → Drops s (.wrote t false) t

/-- The steps after which `run_server` has returned. -/
def ShutsDown (l : Label) : Prop :=
  l = .stop ∨ l = .refused false

/-- What a step does to the clients map and to the set of tasks in their loop. -/
inductive Effect (s : Server) (l : Label) (s' : Server) : Prop
  | quiet : s'.clients = s.clients → (∀ u, s'.serving u = s.serving u) → Effect s l s'
  | insert {t name} : l = .wrote t true → (s.task t).phase = .welcoming name →
      s'.clients = s.clients.insert name t →
      (∀ u, s'.serving u = if u = t then some name else s.serving u) → Effect s l s'
  | leave {t name} : Leaves s l t → s.serving t = some name →
      s'.clients = s.clients.erase name →
      (∀ u, s'.serving u = if u = t then none else s.serving u) → Effect s l s'
  | drop {t name} : Drops s l t → s.serving t = some name → s'.clients = s.clients →
      (s'.task t).phase = .ended →
      (∀ u, s'.serving u = if u = t then none else s.serving u) → Effect s l s'
  | shutDown : ShutsDown l → s'.clients = ∅ → (∀ u, s'.serving u = none) → Effect s l s'

namespace Effect

variable {s s' : Server} {l : Label} {t : TaskId} {name : String}

theorem of_setTask {task : Task} (h : task.phase.serving = s.serving t) :
    Effect s l (s.setTask t task) := by
  refine .quiet rfl fun u => ?_
  by_cases hu : u = t
  · subst hu
    simpa [Server.serving] using h
  · simp [Server.serving, hu]

theorem of_leave (hleaves : Leaves s l t) (hserving : s.serving t = some name)
    (hclients : s'.clients = s.clients) (hphase : ∀ u, (s'.task u).phase = (s.task u).phase) :
    Effect s l (s'.leave t name) := by
  refine .leave hleaves hserving (by simp [hclients]) fun u => ?_
  by_cases hu : u = t
  · simp [Server.serving, hu]
  · simp [Server.serving, hu, hphase]

private theorem of_drop (hdrops : Drops s l t) (hserving : s.serving t = some name) :
    Effect s l (s.finish t) := by
  refine .drop hdrops hserving rfl (by simp) fun u => ?_
  by_cases hu : u = t
  · simp [Server.serving, hu]
  · simp [Server.serving, hu]

private theorem of_shutDown (h : ShutsDown l) : Effect s l s.shutDown := by
  refine .shutDown h rfl fun u => ?_
  simp only [Server.serving, Server.shutDown]
  split
  · next habsent => simp [habsent]
  · rfl

end Effect

theorem joinClient_serving (clients : HashMap String TaskId) (got : Received) :
    (joinClient clients got).serving = none := by
  unfold joinClient
  split <;> (try split) <;> rfl

theorem effect_of_moved {s s' : Server} {l : Label} (h : Moved s l s') : Effect s l s' := by
  have hserving : ∀ {t name}, (s.task t).phase = .receiving name → s.serving t = some name :=
    fun hphase => by simp [Server.serving, hphase]
  -- which of the five effects a step has can be seen from its constructor
  cases h with
  | turnedAway => exact .quiet rfl fun _ => rfl
  | @spawned t _ hphase =>
      refine .quiet rfl fun u => ?_
      by_cases hu : u = t
      · simp [Server.serving, hu, hphase]
      · simp [Server.serving, hu]
  | refused => exact .quiet rfl fun _ => rfl
  | refusalFailed => exact .of_shutDown (.inr rfl)
  | reaped => exact .quiet rfl fun _ => rfl
  | stopped => exact .of_shutDown (.inl rfl)
  | timedOut hphase => exact .of_setTask (by simp [Server.serving, hphase])
  | joined hphase => exact .of_setTask (by simp [Server.serving, hphase, joinClient_serving])
  | unread hphase hgot => exact .of_leave (.unread hgot) (hserving hphase) rfl fun _ => rfl
  | panicked hphase => exact .of_drop (.panicked hphase) (hserving hphase)
  | answering hphase => exact .of_setTask (by simp [Server.serving, hphase])
  | delivered =>
      exact .quiet (Server.sendAll_clients _) fun u => by
        simp [Server.serving, Server.sendAll_phase]
  | undelivered hphase horder hreact hmem hclosed =>
      exact .of_leave (.undelivered hphase horder hreact hmem hclosed) (hserving hphase)
        (Server.sendAll_clients _) (Server.sendAll_phase _)
  | dequeued hphase => exact .of_setTask (by simp [Server.serving, hphase])
  | orphaned hphase hsender =>
      exact .of_leave (.orphaned hsender) (hserving hphase) rfl fun _ => rfl
  | notJoined hphase =>
      refine .of_setTask ?_
      rcases hphase with ⟨reply, hphase⟩ | ⟨name, hphase, -⟩ <;> simp [Server.serving, hphase]
  | @inserted t name hphase =>
      refine .insert rfl hphase rfl fun u => ?_
      by_cases hu : u = t
      · simp [Server.serving, hu]
      · simp [Server.serving, hu]
  | answered hphase => exact .of_setTask (by simp [Server.serving, hphase])
  | bailed hphase hends =>
      exact .of_leave (.bailed hphase hends) (by simp [Server.serving, hphase]) rfl fun _ => rfl
  | forwarded hphase => exact .of_setTask (by simp [Server.serving, hphase])
  | @unforwarded t name msg hphase =>
      have hname : s.serving t = some name := by simp [Server.serving, hphase]
      exact .of_drop (.unforwarded hphase) hname

/-- **The effect of a step** on the clients map and on the tasks in their loop. -/
theorem effect_of_step {maxClients : ℕ} {s s' : Server} {l : Label}
    (h : step maxClients s l = some s') : Effect s l s' :=
  effect_of_moved (moved_of_step h)

end RustCourse.Lesson10
