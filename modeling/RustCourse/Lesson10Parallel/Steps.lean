import RustCourse.Lesson10Parallel.Server

/-!
# What one step of the lesson 10_parallel server can do

`Moved` lists the ways a handler task can go on, one constructor for each, and `Stepped`
the steps of the server.  A handler changes its own phase only (`Moved.phase_ne`), and
what stands in the queues of the locks can be read off the phases (`Locked`).

## Strategy

A handler asks for a guard, stands in the queue, and does its work with the guard.  The first
two are the same for every kind of work, so each of them is one constructor of `Moved`; what is
done with the guard has a constructor for every outcome (`moved_of_act`, `moved_of_wrote`).
-/

namespace RustCourse.Lesson10Parallel

open Chat Transition

variable {s s' : Server} {t u : TaskId} {l : Label}

namespace Server

@[simp] theorem setPhase_clients (phase : Phase) : (s.setPhase t phase).clients = s.clients := rfl

@[simp] theorem setPhase_lock (phase : Phase) : (s.setPhase t phase).lock = s.lock := rfl

@[simp] theorem setPhase_phase (phase : Phase) :
    (s.setPhase t phase).phase u = if u = t then phase else s.phase u := by
  simp [setPhase, Function.update_apply]

@[simp] theorem unlock_clients (id : LockId) : (s.unlock t id).clients = s.clients := rfl

@[simp] theorem unlock_phase (id : LockId) : (s.unlock t id).phase = s.phase := rfl

@[simp] theorem unlock_lock (id id' : LockId) :
    (s.unlock t id).lock id' = if id' = id then (s.lock id).release t else s.lock id' := by
  simp [unlock, Function.update_apply]

/-- Task `t` asks for a lock. -/
def enqueue (s : Server) (t : TaskId) (id : LockId) (mode : Mode) : Server :=
  { s with lock := Function.update s.lock id ((s.lock id).request t mode) }

@[simp] theorem enqueue_clients (id : LockId) (mode : Mode) :
    (s.enqueue t id mode).clients = s.clients := rfl

@[simp] theorem enqueue_phase (id : LockId) (mode : Mode) :
    (s.enqueue t id mode).phase = s.phase := rfl

@[simp] theorem enqueue_lock (id id' : LockId) (mode : Mode) :
    (s.enqueue t id mode).lock id' =
      if id' = id then (s.lock id).request t mode else s.lock id' := by
  simp [enqueue, Function.update_apply]

end Server

/-! ## The steps -/

/-- **What a handler task can do.** -/
inductive Moved (s : Server) (t : TaskId) : Label → Server → Prop
  | timedOut : s.phase t = .joining → Moved s t (.timeout t)
      (s.setPhase t (.doing (.refuse (.error "Timed out waiting for Join")) .asking))
  | joined {got} : s.phase t = .joining → Moved s t (.recv t got) (s.setPhase t (joinClient got))
  | received {name got} : s.phase t = .receiving name →
      Moved s t (.recv t got) (s.setPhase t (handleClient name got))
  | requested {work} : s.phase t = .doing work .asking →
      Moved s t (.request t)
        ((s.enqueue t (work.lock t) work.mode).setPhase t (.doing work .queued))
  | granted {work} : s.phase t = .doing work .queued → (s.lock (work.lock t)).Admits t →
      Moved s t (.grant t) (s.setPhase t (.doing work .holding))
  | taken {name order} : s.phase t = .doing (.check name) .holding → name ∈ s.clients →
      Moved s t (.act t order) ((s.unlock t .clients).setPhase t
        (.doing (.refuse (.error "Username already taken")) .asking))
  | unused {name order} : s.phase t = .doing (.check name) .holding → name ∉ s.clients →
      Moved s t (.act t order) ((s.unlock t .clients).setPhase t (.doing (.welcome name) .asking))
  | inserted {name order} : s.phase t = .doing (.insert name) .holding →
      Moved s t (.act t order)
        { (s.unlock t .clients).setPhase t (.receiving name) with
          clients := s.clients.insert name t }
  | reacts {name msg order} : s.phase t = .doing (.react name msg) .holding →
      s.clients.Enumerates order →
      Moved s t (.act t order) (s.setPhase t (reacting name
        (reactClientMsg s.clients order name msg).bail
        (reactClientMsg s.clients order name msg).sends))
  | returned {name order} : s.phase t = .reacted name false →
      Moved s t (.act t order) ((s.unlock t .clients).setPhase t (.receiving name))
  | bailed {name order} : s.phase t = .reacted name true →
      Moved s t (.act t order) ((s.unlock t .clients).setPhase t (.doing (.leave name) .asking))
  | left {name order} : s.phase t = .doing (.leave name) .holding →
      Moved s t (.act t order)
        { (s.unlock t .clients).setPhase t .ended with clients := s.clients.erase name }
  | refused {reply ok} : s.phase t = .doing (.refuse reply) .holding →
      Moved s t (.wrote t ok) ((s.unlock t (.writer t)).setPhase t .ended)
  | welcomed {name} : s.phase t = .doing (.welcome name) .holding →
      Moved s t (.wrote t true)
        ((s.unlock t (.writer t)).setPhase t (.doing (.insert name) .asking))
  | unwelcomed {name} : s.phase t = .doing (.welcome name) .holding →
      Moved s t (.wrote t false) ((s.unlock t (.writer t)).setPhase t .ended)
  | sent {name connection msg rest bail} :
      s.phase t = .doing (.send name connection msg rest bail) .holding →
      Moved s t (.wrote t true)
        ((s.unlock t (.writer connection)).setPhase t (reacting name bail rest))
  /-- the `?` after a failed write -/
  | unsent {name connection msg rest bail} :
      s.phase t = .doing (.send name connection msg rest bail) .holding →
      Moved s t (.wrote t false)
        (((s.unlock t (.writer connection)).unlock t .clients).setPhase t
          (.doing (.leave name) .asking))
  | cancelled : s.acceptor = .stopped → s.phase t ≠ .absent → s.phase t ≠ .ended →
      Moved s t (.cancel t)
        { s.setPhase t .ended with lock := fun id => (s.lock id).release t }

/-- **What one step can do.** -/
inductive Stepped (maxClients : ℕ) (s : Server) : Label → Server → Prop
  | spawned {t : TaskId} : s.acceptor = .listening → s.phase t = .absent →
      s.joinSet.length < maxClients →
      Stepped maxClients s (.accept t) { s.setPhase t .joining with joinSet := t :: s.joinSet }
  | turnedAway {t : TaskId} : s.acceptor = .listening → maxClients ≤ s.joinSet.length →
      Stepped maxClients s (.accept t) { s with acceptor := .refusing }
  | refusal {ok} : s.acceptor = .refusing →
      Stepped maxClients s (.refused ok)
        { s with acceptor := if ok then .listening else .stopped }
  | reaped {t : TaskId} : s.acceptor = .listening → s.phase t = .ended →
      Stepped maxClients s (.reap t) { s with joinSet := s.joinSet.erase t }
  | stopped : s.acceptor = .listening → Stepped maxClients s .stop { s with acceptor := .stopped }
  | moved {t : TaskId} {l : Label} {s' : Server} : Moved s t l s' → Stepped maxClients s l s'

theorem moved_of_act {order : List (String × TaskId)} (h : act s t order = some s') :
    Moved s t (.act t order) s' := by
  unfold act at h
  split at h
  · next name hphase =>
      by_cases hmem : name ∈ s.clients
      · simp only [hmem, if_true] at h
        cases h
        exact .taken hphase hmem
      · simp only [hmem, if_false] at h
        cases h
        exact .unused hphase hmem
  · next hphase =>
      cases h
      exact .inserted hphase
  · next hphase =>
      split at h <;> cases h
      next horder => exact .reacts hphase horder
  · next name bail hphase =>
      cases h
      cases bail with
      | true => exact .bailed hphase
      | false => exact .returned hphase
  · next hphase =>
      cases h
      exact .left hphase
  · cases h

theorem moved_of_wrote {ok : Bool} (h : wrote s t ok = some s') : Moved s t (.wrote t ok) s' := by
  unfold wrote at h
  split at h
  · next hphase =>
      cases h
      exact .refused hphase
  · next hphase =>
      cases h
      cases ok with
      | true => exact .welcomed hphase
      | false => exact .unwelcomed hphase
  · next hphase =>
      cases ok with
      | true =>
          cases h
          exact .sent hphase
      | false =>
          cases h
          exact .unsent hphase
  · cases h

theorem stepped_of_step {maxClients : ℕ} (h : step maxClients s l = some s') :
    Stepped maxClients s l s' := by
  cases l with
  | accept t =>
      simp only [step, accept] at h
      split at h
      · next hlistening =>
          split at h <;> cases h
          · next hfull => exact .turnedAway hlistening.1 hfull
          · next hroom => exact .spawned hlistening.1 hlistening.2 (Nat.lt_of_not_le hroom)
      · cases h
  | refused ok =>
      simp only [step] at h
      split at h <;> cases h
      next hrefusing => exact .refusal hrefusing
  | reap t =>
      simp only [step] at h
      split at h <;> cases h
      next hended => exact .reaped hended.1 hended.2.2
  | stop =>
      simp only [step] at h
      split at h <;> cases h
      next hlistening => exact .stopped hlistening
  | cancel t =>
      simp only [step] at h
      split at h <;> cases h
      next hlive => exact .moved (.cancelled hlive.1 hlive.2.1 hlive.2.2)
  | timeout t =>
      simp only [step] at h
      split at h <;> cases h
      next hphase => exact .moved (.timedOut hphase)
  | recv t got =>
      simp only [step] at h
      split at h <;> cases h
      · next hphase => exact .moved (.joined hphase)
      · next hphase => exact .moved (.received hphase)
  | request t =>
      simp only [step] at h
      split at h <;> cases h
      next hphase => exact .moved (.requested hphase)
  | grant t =>
      simp only [step] at h
      split at h
      · next hphase =>
          split at h <;> cases h
          next hadmits => exact .moved (.granted hphase hadmits)
      · cases h
  | act t order => exact .moved (moved_of_act h)
  | wrote t ok => exact .moved (moved_of_wrote h)

namespace Moved

/-- A handler changes no phase but its own. -/
theorem phase_ne (h : Moved s t l s') (hu : u ≠ t) : s'.phase u = s.phase u := by
  cases h <;> simp [hu]

theorem acceptor (h : Moved s t l s') : s'.acceptor = s.acceptor := by
  cases h <;> rfl

theorem joinSet (h : Moved s t l s') : s'.joinSet = s.joinSet := by
  cases h <;> rfl

end Moved

/-! ## Where runs with clients start -/

/-- The client of task `t` joins as `name`, up to the `insert`. -/
def greets (t : TaskId) (name : String) : List Label :=
  [.recv t (.msg (.join name)), .request t, .grant t, .act t [], .request t, .grant t,
    .wrote t true]

/-- The client of task `t` joins as `name`. -/
def joins (t : TaskId) (name : String) : List Label :=
  greets t name ++ [.request t, .grant t, .act t []]

/-- The request of a client is processed, with the table in this order. -/
def asks (t : TaskId) (msg : ClientToServerMsg) (order : List (String × TaskId)) : List Label :=
  [.recv t (.msg msg), .request t, .grant t, .act t order]

/-- The handler sends one message. -/
def sends (t : TaskId) : List Label :=
  [.request t, .grant t, .wrote t true]

end RustCourse.Lesson10Parallel
