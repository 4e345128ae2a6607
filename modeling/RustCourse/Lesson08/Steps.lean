import RustCourse.Lesson08.Server

/-!
# What one step of the lesson 08 server can do

`Moved` lists the ways a handler thread can go on, one constructor for each.  The
acceptor and the drop leave the clients table and the handlers alone, except that the
acceptor spawns (`acceptor_frame`, `drop_frame`).

## Strategy

`handlerStep` is one function with a branch for every phase and action.  `moved_of_handlerStep`
goes through it once; an invariant of the handlers is then proved by cases on `Moved`, where a
constructor names the phase, the guards that were granted and what has changed.  What most
steps leave alone is said by frame lemmas: the other handlers (`phase_of_other`), the entries
of clients that are served, the threads that have not been spawned (`absent_of_le`).
-/

namespace RustCourse.Lesson08

open Chat Transition

variable {s s' : Server} {t u : ThreadId}

/-! ## The handlers -/

@[simp] theorem Server.setPhase_clients (phase : Phase) :
    (s.setPhase t phase).clients = s.clients := rfl

@[simp] theorem Server.setPhase_phase (phase : Phase) :
    (s.setPhase t phase).phase u = if u = t then phase else s.phase u := by
  simp [setPhase, Function.update_apply]

/-- **What a handler thread can do.** -/
inductive Moved (s : Server) (t : ThreadId) : Action → Server → Prop
  | joined {got} : s.phase t = .reading → Moved s t (.read got) (s.setPhase t (joinClient got))
  | received {name got} : s.phase t = .receiving name →
      Moved s t (.read got) (s.setPhase t (receive name got))
  | wokenEarly : s.shut t = true → s.phase t = .reading → Moved s t .wake (s.setPhase t .ended)
  | woken {name} : s.shut t = true → s.phase t = .receiving name →
      Moved s t .wake (s.setPhase t (.leaving name))
  | check {name order} : s.phase t = .checking name → s.Readable →
      Moved s t (.acquire order) (s.setPhase t (.checked name (decide (name ∈ s.clients))))
  | insert {name order} : s.phase t = .inserting name → s.Writable →
      Moved s t (.acquire order)
        { s.setPhase t (.inserted name) with clients := s.clients.insert name t }
  | serve {name msg order} : s.phase t = .requesting name msg → s.Readable →
      s.clients.Enumerates order →
      Moved s t (.acquire order) (s.setPhase t (.serving name []
        (handleJoined s.clients order name msg).acts (handleJoined s.clients order name msg).bail))
  | lock {name held other rest bail order} :
      s.phase t = .serving name held (.lock other :: rest) bail → s.WriterFree other →
      Moved s t (.acquire order) (s.setPhase t (.serving name (other :: held) rest bail))
  | remove {name order} : s.phase t = .leaving name → s.Writable →
      Moved s t (.acquire order)
        { s.setPhase t (.left name) with clients := s.clients.erase name }
  | taken {name} : s.phase t = .checked name true →
      Moved s t .release (s.setPhase t (.refusing (.error "Username already taken")))
  | free {name} : s.phase t = .checked name false →
      Moved s t .release (s.setPhase t (.welcoming name))
  | entered {name} : s.phase t = .inserted name →
      Moved s t .release (s.setPhase t (.receiving name))
  | unlock {name held other rest bail} :
      s.phase t = .serving name held (.unlock other :: rest) bail →
      Moved s t .release (s.setPhase t (.serving name (held.erase other) rest bail))
  | served {name held bail} : s.phase t = .serving name held [] bail →
      Moved s t .release (s.setPhase t (if bail then .leaving name else .receiving name))
  | removed {name} : s.phase t = .left name → Moved s t .release (s.setPhase t .ended)
  | refused {reply ok} : s.phase t = .refusing reply → Moved s t (.wrote ok) (s.setPhase t .ended)
  | welcomed {name} : s.phase t = .welcoming name →
      Moved s t (.wrote true) (s.setPhase t (.inserting name))
  | unwelcomed {name} : s.phase t = .welcoming name → Moved s t (.wrote false) (s.setPhase t .ended)
  | wrote {name held connection msg rest bail} :
      s.phase t = .serving name held (.write connection msg :: rest) bail →
      Moved s t (.wrote true) (s.setPhase t (.serving name held rest bail))
  /-- the `?` after a failed write -/
  | broken {name held connection msg rest bail} :
      s.phase t = .serving name held (.write connection msg :: rest) bail →
      Moved s t (.wrote false) (s.setPhase t .ended)

theorem moved_of_handlerStep {action : Action} (h : handlerStep s t action = some s') :
    Moved s t action s' := by
  -- the branches of `handlerStep`, one by one
  cases action with
  | read got =>
      simp only [handlerStep] at h
      split at h <;> cases h
      · next hphase => exact .joined hphase
      · next hphase => exact .received hphase
  | wake =>
      simp only [handlerStep] at h
      split at h
      · next hshut =>
          split at h <;> cases h
          · next hphase => exact .wokenEarly hshut hphase
          · next hphase => exact .woken hshut hphase
      · cases h
  | acquire order =>
      simp only [handlerStep] at h
      split at h
      · next hphase =>
          split at h <;> cases h
          next hfree => exact .check hphase hfree
      · next hphase =>
          split at h <;> cases h
          next hfree => exact .insert hphase hfree
      · next hphase =>
          split at h <;> cases h
          next hfree => exact .serve hphase hfree.1 hfree.2
      · next hphase =>
          split at h <;> cases h
          next hfree => exact .lock hphase hfree
      · next hphase =>
          split at h <;> cases h
          next hfree => exact .remove hphase hfree
      · cases h
  | release =>
      simp only [handlerStep] at h
      split at h <;> cases h
      · next hphase => exact .taken hphase
      · next hphase => exact .free hphase
      · next hphase => exact .entered hphase
      · next hphase => exact .unlock hphase
      · next hphase => exact .served hphase
      · next hphase => exact .removed hphase
  | wrote ok =>
      simp only [handlerStep] at h
      split at h <;> cases h
      · next hphase => exact .refused hphase
      · next hphase =>
          cases ok with
          | true => exact .welcomed hphase
          | false => exact .unwelcomed hphase
      · next hphase =>
          cases ok with
          | true => exact .wrote hphase
          | false => exact .broken hphase

/-- A handler thread changes no phase but its own. -/
theorem Moved.phase_ne {action : Action} (h : Moved s t action s') (hu : u ≠ t) :
    s'.phase u = s.phase u := by
  cases h <;> simp [hu]

theorem Moved.spawned {action : Action} (h : Moved s t action s') : s'.spawned = s.spawned := by
  cases h <;> rfl

theorem Moved.drop {action : Action} (h : Moved s t action s') : s'.drop = s.drop := by
  cases h <;> rfl

theorem Moved.acceptor {action : Action} (h : Moved s t action s') : s'.acceptor = s.acceptor := by
  cases h <;> rfl

theorem Moved.phase_ne_absent {action : Action} (h : Moved s t action s') :
    s.phase t ≠ .absent := by
  intro habsent
  cases h <;> cases habsent.symm.trans ‹s.phase t = _›

theorem Moved.phase_ne_ended {action : Action} (h : Moved s t action s') :
    s.phase t ≠ .ended := by
  intro hended
  cases h <;> cases hended.symm.trans ‹s.phase t = _›

/-- What a handler does next that is about to insert its client. -/
theorem Moved.of_inserting {action : Action} {name : String} (h : Moved s t action s')
    (hphase : s.phase t = .inserting name) : ∃ order, action = .acquire order ∧
      s' = { s.setPhase t (.inserted name) with clients := s.clients.insert name t } := by
  cases h <;> cases hphase.symm.trans ‹s.phase t = _›
  exact ⟨_, rfl, rfl⟩

/-! ## Handlers that have entered -/

/-- The handler has made its `insert`. -/
def Phase.entered : Phase → Bool
  | .inserted _ => true
  | .receiving _ => true
  | .requesting _ _ => true
  | .serving _ _ _ _ => true
  | .leaving _ => true
  | .left _ => true
  | .ended => true
  | _ => false

theorem Moved.entered_mono {action : Action} (h : Moved s t action s')
    (hentered : (s.phase t).entered = true) :
    (s'.phase t).entered = true := by
  cases h with
  | @received other got hphase => cases got <;> simp [receive, Phase.entered]
  | @served other held bail hphase => cases bail <;> simp [Phase.entered]
  | _ => simp_all [Phase.entered]

theorem Moved.handles {action : Action} (h : Moved s t action s') : s'.handles = s.handles := by
  cases h <;> rfl

/-! ## The acceptor and the drop -/

/-- What the acceptor leaves alone. -/
inductive AcceptorFrame (s s' : Server) : Prop
  | quiet : s'.phase = s.phase → s'.spawned = s.spawned → AcceptorFrame s s'
  | spawn : s.acceptor ≠ .ended → s'.phase = Function.update s.phase s.spawned .reading →
      s'.spawned = s.spawned + 1 → AcceptorFrame s s'

theorem acceptor_clients {maxClients : ℕ} {action : AcceptorAction}
    (h : acceptorStep maxClients s action = some s') :
    s'.clients = s.clients ∧ s'.drop = s.drop := by
  cases action <;> simp only [acceptorStep] at h <;> (repeat' split at h) <;> cases h <;>
    exact ⟨rfl, rfl⟩

theorem acceptor_frame {maxClients : ℕ} {action : AcceptorAction}
    (h : acceptorStep maxClients s action = some s') : AcceptorFrame s s' := by
  cases action with
  | reap =>
      simp only [acceptorStep] at h
      split at h
      · next i hreaping =>
          split at h
          · split at h <;> cases h <;> exact .quiet rfl rfl
          · split at h <;> cases h
            · exact .quiet rfl rfl
            · exact .spawn (by simp [hreaping]) rfl rfl
      · cases h
  | accept | acceptWakeUp | load | refused =>
      simp only [acceptorStep] at h
      split at h <;> cases h
      exact .quiet rfl rfl
  | lock =>
      simp only [acceptorStep] at h
      split at h <;> cases h
      exact .quiet rfl rfl

theorem drop_frame {action : DropAction} (h : dropStep s action = some s') :
    s'.clients = s.clients ∧ s'.phase = s.phase ∧ s'.spawned = s.spawned ∧
      s'.acceptor = s.acceptor := by
  cases action <;> simp only [dropStep] at h <;> (repeat' split at h) <;> cases h <;>
    exact ⟨rfl, rfl, rfl, rfl⟩

/-! ## Threads that were spawned -/

variable {maxClients : ℕ} {trace : List (Server × Label)}

/-- Only threads below `spawned` are there. -/
theorem absent_of_le (hrun : Run (Fires (step maxClients)) Server.init trace s) :
    ∀ u : ℕ, s.spawned ≤ u → s.phase u = .absent := by
  refine hrun.invariant (I := fun s => ∀ u : ℕ, s.spawned ≤ u → s.phase u = .absent)
    (fun _ _ => rfl) ?_
  intro s l s' ih hstep u hu
  cases l with
  | handler t action =>
      have hmoved := moved_of_handlerStep hstep
      rw [hmoved.spawned] at hu
      have hut : u ≠ t := by
        intro heq
        subst heq
        exact hmoved.phase_ne_absent (ih u hu)
      rw [hmoved.phase_ne hut, ih u hu]
  | acceptor action =>
      cases acceptor_frame hstep with
      | quiet hphase hspawned => rw [hphase, ih u (hspawned ▸ hu)]
      | spawn _ hphase hspawned =>
          have hlt : s.spawned < u := by omega
          rw [hphase, Function.update_of_ne (Nat.ne_of_gt hlt), ih u hlt.le]
  | drop action =>
      obtain ⟨-, hphase, hspawned, -⟩ := drop_frame hstep
      rw [hphase, ih u (hspawned ▸ hu)]

/-- A phase other than `absent` belongs to a spawned thread. -/
theorem lt_spawned (hrun : Run (Fires (step maxClients)) Server.init trace s)
    (h : s.phase u ≠ .absent) : u < s.spawned := by
  by_contra hle
  exact h (absent_of_le hrun u (Nat.le_of_not_lt hle))

/-- The acceptor and the drop leave the table alone, and every handler that is there. -/
theorem env_of_step {l : Label} (hrun : Run (Fires (step maxClients)) Server.init trace s)
    (hstep : step maxClients s l = some s') (henv : ∀ t action, l ≠ .handler t action) :
    s'.clients = s.clients ∧
      ∀ t, s'.phase t = s.phase t ∨ s.phase t = .absent ∧ s'.phase t = .reading := by
  cases l with
  | handler t action => exact absurd rfl (henv t action)
  | acceptor action =>
      refine ⟨(acceptor_clients hstep).1, fun t => ?_⟩
      cases acceptor_frame hstep with
      | quiet hphase _ => exact .inl (by rw [hphase])
      | spawn _ hphase _ =>
          by_cases ht : t = s.spawned
          · subst ht
            exact .inr ⟨absent_of_le hrun _ le_rfl, by rw [hphase, Function.update_self]⟩
          · exact .inl (by rw [hphase, Function.update_of_ne ht])
  | drop action =>
      obtain ⟨hclients, hphase, -⟩ := drop_frame hstep
      exact ⟨hclients, fun t => .inl (by rw [hphase])⟩

/-- Without a step of its own, a handler at most starts. -/
theorem phase_of_other {l : Label} (hrun : Run (Fires (step maxClients)) Server.init trace s)
    (hstep : step maxClients s l = some s') (hother : ∀ action, l ≠ .handler t action) :
    s'.phase t = s.phase t ∨ s.phase t = .absent ∧ s'.phase t = .reading := by
  cases l with
  | handler u action =>
      have hne : t ≠ u := by
        rintro rfl
        exact hother action rfl
      exact .inl ((moved_of_handlerStep hstep).phase_ne hne)
  | acceptor | drop => exact (env_of_step hrun hstep (by simp)).2 t

/-! ## Where runs with clients start -/

/-- One more client is accepted while `handlers` handlers run. -/
def connects (handlers : ℕ) : List Label :=
  [.acceptor .accept, .acceptor .load, .acceptor .lock] ++
    List.replicate (handlers + 1) (.acceptor .reap)

/-- The client of handler `t` joins as `name`. -/
def joins (t : ThreadId) (name : String) : List Label :=
  [.handler t (.read (.msg (.join name))), .handler t (.acquire []), .handler t .release,
    .handler t (.wrote true), .handler t (.acquire []), .handler t .release]

end RustCourse.Lesson08
