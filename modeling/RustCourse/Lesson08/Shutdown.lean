import RustCourse.Lesson08.Deadlock

/-!
# Dropping the server

`drop` stops the acceptor, acquires the table for reading, shuts down the sockets of the
clients in the table, and joins every handler, all of it without giving the table back.
A handler that needs the table for writing meanwhile, to insert its client or to remove
it, never gets it, and a handler that waits for the first message of a client that is in
no table is not woken up.

`shutdown_progress` says that nothing else goes wrong: if every handler is `Quiet` when
`drop` acquires the table, that is, has ended or has only a refusal left to write, and if
the handlers have not deadlocked among themselves before, then from the start of `drop`
to its return somebody can always take a step.  A write may wait for a peer that reads
nothing any more (`deaf`); the theorem is about states in which no thread is in such a
write.
-/

namespace RustCourse.Lesson08

open Chat Transition

/-! ## Quiet handlers -/

/-- Handler `t` has ended, or it has only a refusal left to write. -/
def Quiet (s : Server) (t : ThreadId) : Prop :=
  match s.phase t with
  | .absent => True
  | .checking name => name ∈ s.clients
  | .checked _ taken => taken = true
  | .refusing _ => True
  | .ended => True
  | _ => False

/-- The step lets no handlers wait for each other in a circle, and if it is the one in
which `drop` acquires the table, every handler is quiet. -/
def Calm (s : Server) (l : Label) : Prop :=
  Uncrossed s l ∧ ((∃ order, l = .drop (.readTable order)) → ∀ t, Quiet s t)

/-- The connection that handler `t` writes to. -/
def Phase.writesTo (t : ThreadId) : Phase → Option ThreadId
  | .refusing _ => some t
  | .welcoming _ => some t
  | .serving _ _ (.write connection _ :: _) _ => some connection
  | _ => none

/-- No thread is in a write to a peer that reads nothing any more.  These peers are named by
their connections, and the one that the acceptor refuses is `none`. -/
def WritesEnd (deaf : Option ThreadId → Prop) (s : Server) : Prop :=
  (∀ t connection, (s.phase t).writesTo t = some connection → ¬ deaf (some connection)) ∧
    (s.acceptor = .refusing → ¬ deaf none)

/-- Some party can take a step without a peer, even if waiting writers keep new readers out
of the table.  A write to a peer that is `deaf` is no such step. -/
def CanMove (deaf : Option ThreadId → Prop) (maxClients : ℕ) (s : Server) : Prop :=
  (∃ t, CanStep s t ∧
      ∀ connection, (s.phase t).writesTo t = some connection → ¬ deaf (some connection)) ∨
    (∃ action s', action ≠ .accept ∧ (s.acceptor = .refusing → ¬ deaf none) ∧
      acceptorStep maxClients s action = some s') ∨
      ((s.drop = .readingTable → ∀ u, (s.phase u).wantsWrite = false) ∧
        ∃ action s', dropStep s action = some s')

variable {deaf : Option ThreadId → Prop} {maxClients : ℕ} {trace : List (Server × Label)}
  {s s' : Server} {t : ThreadId}

/-! ## The acceptor is stopped -/

/-- Once `terminated` is stored the acceptor ends at its next look, and the connection that
`drop` makes gives it something to look at. -/
structure Stopping (s : Server) : Prop where
  terminated : s.drop ≠ .running → s.terminated = true
  wakeUp : s.drop = .joiningAcceptor →
    s.wakeUp = true ∨ s.acceptor = .accepted ∨ s.acceptor = .ended
  ended : s.drop = .readingTable ∨ s.drop.reads = true → s.acceptor = .ended

theorem stopping_acceptor {action : AcceptorAction} (h : Stopping s)
    (hstep : acceptorStep maxClients s action = some s') : Stopping s' := by
  have hdrop := (acceptor_clients hstep).2
  have hterminated : s'.terminated = s.terminated := by
    cases action <;> simp only [acceptorStep] at hstep <;> (repeat' split at hstep) <;>
      cases hstep <;> rfl
  have hended : s.acceptor ≠ .ended := by
    intro hended
    cases action <;> simp [acceptorStep, hended] at hstep
  refine ⟨by rw [hdrop, hterminated]; exact h.terminated, ?_, ?_⟩
  · intro hjoining
    rw [hdrop] at hjoining
    have hstored := h.terminated (by simp [hjoining])
    rcases h.wakeUp hjoining with hwakeUp | haccepted | hends
    · cases action <;> simp only [acceptorStep] at hstep <;> (repeat' split at hstep) <;>
        cases hstep <;> simp_all [Server.setPhase]
    · -- the acceptor looks at `terminated`
      cases action <;> simp [acceptorStep, haccepted] at hstep
      simp [← hstep, hstored]
    · exact absurd hends hended
  · rw [hdrop]
    exact fun hlate => absurd (h.ended hlate) hended

theorem stopping_drop {action : DropAction} (h : Stopping s) (hstep : dropStep s action = some s') :
    Stopping s' := by
  obtain ⟨hterminated, hwakeUp, hended⟩ := h
  cases action <;> simp only [dropStep] at hstep <;> (repeat' split at hstep) <;> cases hstep <;>
    constructor <;> simp_all [Drop.reads]

theorem stopping (hrun : Run (Fires (step maxClients)) Server.init trace s) : Stopping s := by
  refine hrun.invariant (by constructor <;> simp [Server.init, Drop.reads]) ?_
  intro s l s' h hstep
  cases l with
  | handler t action =>
      obtain ⟨hterminated, hwakeUp, hended⟩ := h
      cases moved_of_handlerStep hstep <;> exact ⟨hterminated, hwakeUp, hended⟩
  | acceptor action => exact stopping_acceptor h hstep
  | drop action => exact stopping_drop h hstep

/-! ## Handles belong to threads -/

/-- A handle, in the list or being joined, is that of a thread. -/
structure HandlesSpawned (s : Server) : Prop where
  listed : ∀ t ∈ s.handles, s.phase t ≠ .absent
  popped : ∀ t, s.drop = .joining (some t) → s.phase t ≠ .absent

theorem Moved.not_absent {action : Action} (h : Moved s t action s') {u : ThreadId}
    (hu : s.phase u ≠ .absent) : s'.phase u ≠ .absent := by
  by_cases hut : u = t
  · subst hut
    cases h with
    | @joined got hphase =>
        simp only [Server.setPhase_phase, if_true]
        unfold joinClient
        split <;> simp
    | @received name got hphase =>
        simp only [Server.setPhase_phase, if_true]
        cases got <;> simp [receive]
    | @served name held bail hphase =>
        simp only [Server.setPhase_phase, if_true]
        split <;> simp
    | _ => simp
  · rwa [h.phase_ne hut]

private theorem mem_of_mem_swapRemove {handles : List ThreadId} {i : ℕ}
    (h : t ∈ swapRemove handles i) : t ∈ handles := by
  unfold swapRemove at h
  split at h
  · next last hlast =>
      rcases List.mem_or_eq_of_mem_set (List.dropLast_subset _ h) with hmem | rfl
      · exact hmem
      · exact List.mem_of_getLast? hlast
  · exact h

private theorem handlesSpawned (hrun : Run (Fires (step maxClients)) Server.init trace s) :
    HandlesSpawned s := by
  refine hrun.invariant (by constructor <;> simp [Server.init]) ?_
  intro s l s' h hstep
  cases l with
  -- a handler moves: no thread is absent afterwards that was not
  | handler t action =>
      have hmoved := moved_of_handlerStep hstep
      refine ⟨fun u hu => hmoved.not_absent (h.listed u (hmoved.handles ▸ hu)), fun u hu => ?_⟩
      exact hmoved.not_absent (h.popped u (hmoved.drop ▸ hu))
  | acceptor action =>
      have hdrop := (acceptor_clients hstep).2
      have hkept : ∀ u, s.phase u ≠ .absent → s'.phase u ≠ .absent := by
        intro u hu
        cases acceptor_frame hstep with
        | quiet hphase _ => rwa [hphase]
        | spawn _ hphase _ =>
            rw [hphase, Function.update_apply]
            split
            · simp
            · exact hu
      refine ⟨?_, fun u hu => hkept u (h.popped u (hdrop ▸ hu))⟩
      -- only `reap` changes the vector, and puts in a handle of a new thread
      cases action with
      | reap =>
          simp only [Fires, step, acceptorStep] at hstep
          split at hstep
          · split at hstep
            · split at hstep <;> cases hstep
              · exact fun u hu => h.listed u (mem_of_mem_swapRemove hu)
              · exact h.listed
            · split at hstep <;> cases hstep
              · exact h.listed
              · intro u hu
                rcases List.mem_append.mp hu with hu | hu
                · exact hkept u (h.listed u hu)
                · simp [List.mem_singleton.mp hu]
          · cases hstep
      | accept | acceptWakeUp | load | lock | refused =>
          simp only [Fires, step, acceptorStep] at hstep
          split at hstep <;> cases hstep
          exact h.listed
  | drop action =>
      obtain ⟨hlisted, hpopped⟩ := h
      cases action with
      -- `pop` takes the last handle out of the vector
      | pop =>
          simp only [Fires, step, dropStep] at hstep
          split at hstep <;> cases hstep
          · next handle _ hlast =>
              have hhandle := hlisted handle (List.mem_of_getLast? hlast)
              refine ⟨fun u hu => hlisted u (List.dropLast_subset _ hu), ?_⟩
              rintro u ⟨⟩
              exact hhandle
          · exact ⟨hlisted, by simp⟩
      | start | connect | joinAcceptor | readTable | close | lockHandles | join =>
          simp only [Fires, step, dropStep] at hstep
          (repeat' split at hstep) <;> cases hstep <;> exact ⟨hlisted, by simp⟩

/-! ## Quiet handlers stay quiet -/

/-- While `drop` holds the table every handler is quiet. -/
def Hushed (s : Server) : Prop :=
  s.drop.reads = true → ∀ t, Quiet s t

/-- A handler that has not been spawned is quiet. -/
theorem quiet_of_spawned (hrun : Run (Fires (step maxClients)) Server.init trace s)
    (h : ∀ t < s.spawned, Quiet s t) : ∀ t, Quiet s t := by
  intro t
  by_cases ht : t < s.spawned
  · exact h t ht
  · simp only [Quiet, absent_of_le hrun t (Nat.le_of_not_lt ht)]

theorem quiet_of_moved {action : Action} (h : Moved s t action s') (hquiet : ∀ u, Quiet s u) :
    ∀ u, Quiet s' u := by
  have hclients : s'.clients = s.clients := by
    cases h with
    | insert hphase | remove hphase => simpa [Quiet, hphase] using hquiet t
    | _ => rfl
  intro u
  by_cases hut : u = t
  · subst hut
    have hu := hquiet u
    cases h <;> simp_all [Quiet]
  · have hu := hquiet u
    simpa only [Quiet, h.phase_ne hut, hclients] using hu

private theorem hushed (hrun : Run (Fires (step maxClients)) Server.init trace s)
    (hcalm : ∀ p ∈ trace, Calm p.1 p.2) : Hushed s := by
  refine hrun.invariantTraceUnder (I := fun _ s => Hushed s) hcalm
    (by simp [Hushed, Server.init, Drop.reads]) ?_
  intro trace s l s' hrun hbefore hcalm hstep hreads
  cases l with
  | handler t action =>
      have hmoved := moved_of_handlerStep hstep
      exact quiet_of_moved hmoved (hbefore (hmoved.drop ▸ hreads))
  | acceptor action =>
      have hdrop := (acceptor_clients hstep).2
      have hended := (stopping hrun).ended (.inr (hdrop ▸ hreads))
      cases action <;> simp [Fires, step, acceptorStep, hended] at hstep
  | drop action =>
      obtain ⟨hclients, hphase, -, -⟩ := drop_frame hstep
      have hquiet : ∀ t, Quiet s t := by
        cases action with
        | readTable order => exact hcalm.2 ⟨order, rfl⟩
        | start | connect | joinAcceptor =>
            simp only [Fires, step, dropStep] at hstep
            split at hstep <;> cases hstep
            simp [Drop.reads] at hreads
        | close | lockHandles | pop | join =>
            apply hbefore
            simp only [Fires, step, dropStep] at hstep
            (repeat' split at hstep) <;> cases hstep <;> simp_all [Drop.reads]
      intro t
      simpa only [Quiet, hphase, hclients] using hquiet t

/-! ## Somebody can always take a step -/

/-- A quiet handler that has not ended can go on while `drop` waits for it. -/
theorem canStep_of_quiet (hquiet : ∀ u, Quiet s u) (hended : s.phase t ≠ .ended)
    (habsent : s.phase t ≠ .absent) : CanStep s t := by
  have ht := hquiet t
  cases hphase : s.phase t with
  | checking name =>
      refine canStep_of_readable (by simp [hphase, Phase.wantsRead]) (fun u _ => ?_) fun u => ?_
      · have hu := hquiet u
        cases hphase : s.phase u <;> simp_all [Quiet, Phase.writes]
      · have hu := hquiet u
        cases hphase : s.phase u <;> simp_all [Quiet, Phase.wantsWrite]
  | checked name taken =>
      refine (canStep_of_holds (.inl ?_)).resolve_right ?_ <;>
        simp [hphase, Phase.reads, Phase.waits, Phase.wantsRead, Phase.wantsWrite,
          Phase.wantsWriter]
  | refusing reply =>
      exact ⟨by simp [hphase, Phase.wantsRead], .wrote true, by simp, _,
        by simp [handlerStep, hphase]; rfl⟩
  | _ => simp_all [Quiet]

/-- While `drop` joins the acceptor, the acceptor can go on: if it waits for a connection,
the one `drop` made is there. -/
theorem canMove_of_joiningAcceptor (hwrites : WritesEnd deaf s) (hdrop : s.drop = .joiningAcceptor)
    (hwakeUp : s.acceptor = .accepting → s.wakeUp = true) : CanMove deaf maxClients s := by
  have hacceptor : ∀ action s', action ≠ .accept →
      acceptorStep maxClients s action = some s' → CanMove deaf maxClients s :=
    fun action s' hne hstep => .inr (.inl ⟨action, s', hne, hwrites.2, hstep⟩)
  cases hphase : s.acceptor with
  | accepting =>
      exact hacceptor .acceptWakeUp _ (by simp)
        (by simp [acceptorStep, hphase, hwakeUp hphase]; rfl)
  | accepted => exact hacceptor .load _ (by simp) (by simp [acceptorStep, hphase]; rfl)
  | locking => exact hacceptor .lock _ (by simp) (by simp [acceptorStep, hphase, hdrop]; rfl)
  | reaping i =>
      obtain ⟨s', hstep⟩ : ∃ s', acceptorStep maxClients s .reap = some s' := by
        simp only [acceptorStep, hphase]
        (repeat' split) <;> exact ⟨_, rfl⟩
      exact hacceptor .reap s' (by simp) hstep
  | refusing => exact hacceptor (.refused true) _ (by simp) (by simp [acceptorStep, hphase]; rfl)
  | ended =>
      exact .inr (.inr ⟨by simp [hdrop], .joinAcceptor, _, by simp [dropStep, hdrop, hphase]; rfl⟩)

/-- While `drop` waits for the table, it is granted, or its writer releases it, or a handler
that was queued before goes on. -/
theorem canMove_of_readingTable (hwrites : WritesEnd deaf s) (hdrop : s.drop = .readingTable)
    (hprogress : (∃ t, (s.phase t).waits = true) → ∃ t, CanStep s t) :
    CanMove deaf maxClients s := by
  by_cases hqueue : ∀ u, (s.phase u).wantsWrite = false
  · by_cases hreadable : s.Readable
    · obtain ⟨order, horder⟩ := HashMap.exists_enumerates s.clients
      exact .inr (.inr ⟨fun _ => hqueue, .readTable order, _,
        by simp [dropStep, hdrop, hreadable, horder]; rfl⟩)
    · simp only [Server.Readable, not_forall, Bool.not_eq_false] at hreadable
      obtain ⟨u, -, hholds⟩ := hreadable
      have hwaits : ¬ (s.phase u).waits = true := by
        intro hwaits
        simp [Phase.not_writes_of_waits hwaits] at hholds
      exact .inl ⟨u, (canStep_of_holds (.inr hholds)).resolve_right hwaits, hwrites.1 u⟩
  · simp only [not_forall, Bool.not_eq_false] at hqueue
    obtain ⟨u, hu⟩ := hqueue
    obtain ⟨t, ht⟩ := hprogress ⟨u, by simp [Phase.waits, hu]⟩
    exact .inl ⟨t, ht, hwrites.1 t⟩

/-! ## From the start of `drop` to its return -/

/-- **The drop does not get stuck** in a run in which handlers never wait for each other in
a circle and every handler is quiet when `drop` acquires the table: from the start of
`drop` to its return some party can take a step, as long as no thread is in a write to a
peer that reads nothing any more. -/
theorem shutdown_progress (hrun : Run (Fires (step maxClients)) Server.init trace s)
    (hcalm : ∀ p ∈ trace, Calm p.1 p.2) (hwrites : WritesEnd deaf s)
    (hstarted : s.drop ≠ .running) (hreturned : s.drop ≠ .returned) :
    CanMove deaf maxClients s := by
  have hstopping := stopping hrun
  have hhushed := hushed hrun hcalm
  cases hdrop : s.drop with
  | running => exact absurd hdrop hstarted
  | returned => exact absurd hdrop hreturned
  | connecting => exact .inr (.inr ⟨by simp [hdrop], .connect, _, by simp [dropStep, hdrop]; rfl⟩)
  | joiningAcceptor =>
      refine canMove_of_joiningAcceptor hwrites hdrop fun hphase => ?_
      simpa [hphase] using hstopping.wakeUp hdrop
  | readingTable =>
      have hfree : s.drop.reads = false := by simp [hdrop, Drop.reads]
      have hacyclic := acyclic_of_uncrossed hrun fun p hp => (hcalm p hp).1
      refine canMove_of_readingTable hwrites hdrop fun hwaits => ?_
      obtain ⟨t, ht⟩ := hwaits
      exact exists_canStep hacyclic (allSteady hrun) (absent_of_le hrun) hfree ht
  | closing rest =>
      have hquiet := hhushed (by simp [hdrop, Drop.reads])
      cases rest with
      | nil => exact .inr (.inr ⟨by simp [hdrop], .close, _, by simp [dropStep, hdrop]; rfl⟩)
      | cons name rest =>
          have hfree : s.WriterFree name := by
            intro u _
            have hu := hquiet u
            cases hphase : s.phase u <;> simp_all [Quiet, Phase.held]
          exact .inr (.inr ⟨by simp [hdrop], .close, _, by simp [dropStep, hdrop, hfree]; rfl⟩)
  | lockingHandles =>
      have hended := hstopping.ended (.inr (by simp [hdrop, Drop.reads]))
      exact .inr (.inr ⟨by simp [hdrop], .lockHandles, _, by simp [dropStep, hdrop, hended]; rfl⟩)
  | joining handle =>
      have hquiet := hhushed (by simp [hdrop, Drop.reads])
      cases handle with
      | none =>
          obtain ⟨s', hstep⟩ : ∃ s', dropStep s .pop = some s' := by
            cases hlast : s.handles.getLast? <;> simp only [dropStep, hdrop, hlast] <;>
              exact ⟨_, rfl⟩
          exact .inr (.inr ⟨by simp [hdrop], .pop, s', hstep⟩)
      | some t =>
          by_cases hended : s.phase t = .ended
          · exact .inr (.inr ⟨by simp [hdrop], .join, _, by simp [dropStep, hdrop, hended]; rfl⟩)
          · have hcan := canStep_of_quiet hquiet hended ((handlesSpawned hrun).popped t hdrop)
            exact .inl ⟨t, hcan, hwrites.1 t⟩

/-- A step in which no handler carries out a request, and `drop` gets the table while every
handler has ended or turns its client away. -/
def calm (p : Server × Label) : Bool :=
  match p.2 with
  | .handler t (.acquire _) => !(p.1.phase t).reads
  | .drop (.readTable _) => decide (∀ t < p.1.spawned,
      p.1.phase t = .ended ∨ p.1.phase t = .refusing (.error "Username already taken"))
  | _ => true

/-- Three clients are there when the server is dropped.  The first one leaves before the table
is acquired; the second has sent something malformed and is still in the table; the third has
a taken name, and `drop` waits for its handler, which is about to write the refusal to a
client that reads, though the second one does not. -/
theorem shutdown_progress_three :
    ∃ trace s, Run (Fires (step 3)) Server.init trace s ∧ s.drop = .joining (some 2) ∧
      s.phase 2 = .refusing (.error "Username already taken") ∧
      CanMove (fun connection => connection = some 1) 3 s := by
  obtain ⟨trace, s, hrun, hp⟩ := exists_run_of_replay (step 3) Server.init
    (connects 0 ++ connects 1 ++ connects 2 ++ joins 0 "a" ++ joins 1 "b" ++
      [.handler 2 (.read (.msg (.join "b"))), .handler 2 (.acquire []), .handler 2 .release,
        .drop .start, .handler 0 (.read .eof), .handler 0 (.acquire []), .handler 0 .release,
        .handler 1 (.read .err), .drop .connect, .acceptor .acceptWakeUp, .acceptor .load,
        .drop .joinAcceptor, .drop (.readTable [("b", 1)]), .drop .close, .drop .close,
        .drop .lockHandles, .drop .pop])
    (fun r => r.1.all calm &&
      decide (r.2.drop = .joining (some 2) ∧ r.2.acceptor = .ended ∧
        r.2.phase 2 = .refusing (.error "Username already taken") ∧
        ∀ t < r.2.spawned, (r.2.phase t).writesTo t ≠ some 1))
    (by decide +kernel)
  simp only [Bool.and_eq_true, List.all_eq_true, decide_eq_true_eq] at hp
  obtain ⟨hsteps, hdrop, hacceptor, hphase, hwrites⟩ := hp
  refine ⟨trace, s, hrun, hdrop, hphase, shutdown_progress hrun (fun p hp => ⟨?_, ?_⟩) ⟨?_, ?_⟩
    (by simp [hdrop]) (by simp [hdrop])⟩
  · -- nobody carries out a request
    intro t order name held own other rest bail hl hserving
    have hstep := hsteps p hp
    simp [calm, hl, hserving, Phase.reads] at hstep
  · rintro ⟨order, hl⟩
    obtain ⟨before, -, -, hbefore, -⟩ := hrun.exists_before hp
    have hstep := hsteps p hp
    simp only [calm, hl, decide_eq_true_eq] at hstep
    refine quiet_of_spawned hbefore fun t ht => ?_
    rcases hstep t ht with hended | hrefusing
    · simp only [Quiet, hended]
    · simp only [Quiet, hrefusing]
  · intro t connection hconnection hdeaf
    have hspawned : t < s.spawned := by
      refine lt_spawned hrun fun habsent => ?_
      simp [habsent, Phase.writesTo] at hconnection
    exact hwrites t hspawned (hconnection.trans hdeaf)
  · simp [hacceptor]

/-! ## A client that leaves while the server is dropped -/

/-- When `drop` joins a handler that waits to remove its client, and there is nothing else
to do, nobody can take a step. -/
theorem stuck_of_leaving {name : String}
    (hrun : Run (Fires (step maxClients)) Server.init trace s)
    (hdrop : s.drop = .joining (some 0)) (hphase : s.phase 0 = .leaving name)
    (hacceptor : s.acceptor = .ended) (hspawned : s.spawned = 1) : ¬ CanMove deaf maxClients s := by
  have hbusy : ¬ s.Writable := by simp [Server.Writable, hdrop, Drop.reads]
  rintro (⟨t, ⟨-, action, hread, s', hstep⟩, -⟩ | ⟨action, s', hne, -, hstep⟩ |
    ⟨-, action, s', hstep⟩)
  · have hmoved := moved_of_handlerStep hstep
    have ht : t < 1 := hspawned ▸ lt_spawned hrun hmoved.phase_ne_absent
    obtain rfl : t = 0 := by simpa using ht
    cases hmoved <;> simp_all
  · cases action <;> simp [acceptorStep, hacceptor] at hstep
  · cases action <;> simp [dropStep, hdrop, hphase] at hstep

/-- One client has joined and stays silent: `drop` shuts down its socket, its handler wakes
up and wants to remove the client, and `drop` waits for the handler.  Nobody is in a write. -/
theorem drop_deadlocks_with_client :
    ∃ trace s, Run (Fires (step 1)) Server.init trace s ∧ s.drop ≠ .running ∧
      s.drop ≠ .returned ∧ ¬ CanMove (fun _ => False) 1 s := by
  obtain ⟨trace, s, hrun, hp⟩ := exists_run_of_replay (step 1) Server.init
    (connects 0 ++ joins 0 "a" ++
      [.drop .start, .drop .connect, .acceptor .acceptWakeUp, .acceptor .load,
        .drop .joinAcceptor, .drop (.readTable [("a", 0)]), .drop .close, .drop .close,
        .drop .lockHandles, .drop .pop, .handler 0 .wake])
    (fun r => decide (r.2.drop = .joining (some 0) ∧ r.2.phase 0 = .leaving "a" ∧
      r.2.acceptor = .ended ∧ r.2.spawned = 1))
    (by decide +kernel)
  simp only [decide_eq_true_eq] at hp
  obtain ⟨hdrop, hphase, hacceptor, hspawned⟩ := hp
  exact ⟨trace, s, hrun, by simp [hdrop], by simp [hdrop],
    stuck_of_leaving hrun hdrop hphase hacceptor hspawned⟩

end RustCourse.Lesson08
