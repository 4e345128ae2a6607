import RustCourse.Lesson10Parallel.Steps

/-!
# Broadcasts of the lesson 10_parallel server

`Broadcast` goes to all connected users but the sender, says `messages.rs`.  The loop in
`react_client_msg` sends to one client after the other, in the order of the hash map, and
leaves with the first write that fails: the clients behind it are not told, and the `?`
takes the sender out of its own loop as well.

`broadcast_reaches_iff` is about every way the handler gets through a broadcast, whatever
the other tasks do meanwhile: everybody is sent the message once and the sender stays, if
and only if no write to another client fails.  The invariant (`Sending`) is that the calls
made and the messages that are left are together the messages of the plan, and that every
call but a last one succeeded.
-/

namespace RustCourse.Lesson10Parallel

open Chat Transition

/-! ## Processing a broadcast -/

/-- The call of `send` that task `t` makes with the step, whether it succeeds or not. -/
def called (t : TaskId) (p : Server × Label) : Option (TaskId × ServerToClientMsg) :=
  match p.2 with
  | .wrote u _ =>
      if u = t then
        match p.1.phase t with
        | .doing (.send _ connection msg _ _) .holding => some (connection, msg)
        | _ => none
      else none
  | _ => none

/-- The calls of `send` that task `t` makes. -/
def calls (t : TaskId) (trace : List (Server × Label)) : List (TaskId × ServerToClientMsg) :=
  trace.filterMap (called t)

/-- It is between the read guard and the end of `react_client_msg`. -/
def Phase.isReacting : Phase → Bool
  | .doing (.send _ _ _ _ _) _ => true
  | .reacted _ _ => true
  | _ => false

/-- The handler of `t` serves a broadcast in state `s`, in which its client is registered as
`name`, and it is done with it in state `s'`.  Its writes to the connections in `fails` fail,
and the others succeed. -/
structure Broadcasts (maxClients : ℕ) (fails : TaskId → Bool) (t : TaskId)
    (name message : String) (s : Server) (trace : List (Server × Label)) (s' : Server) :
    Prop where
  registered : s.clients.lookup name = some t
  received : s.phase t = .doing (.react name (.broadcast message)) .holding
  run : ∃ order s₁, step maxClients s (.act t order) = some s₁ ∧
    Run (Fires (step maxClients)) s₁ trace s'
  reacting : ∀ p ∈ trace, (p.1.phase t).isReacting
  writes : ∀ p ∈ trace, ∀ ok, p.2 = .wrote t ok → ∀ call ∈ called t p, ok = !fails call.1
  uncancelled : ∀ p ∈ trace, p.2 ≠ .cancel t
  done : ¬ (s'.phase t).isReacting

/-- One call of `send` for each other client, with the message, and none but these. -/
def ReachesOthers (clients : HashMap String TaskId) (name message : String)
    (calls : List (TaskId × ServerToClientMsg)) : Prop :=
  (calls : Multiset (TaskId × ServerToClientMsg)) =
    (clients.erase name).entries.map fun client => (client.2, .message name message)

/-! ## One client after the other -/

variable {maxClients : ℕ} {fails : TaskId → Bool} {t : TaskId} {name message : String}
  {s s₁ s' : Server} {trace : List (Server × Label)} {l : Label}
  {sends done : List (TaskId × ServerToClientMsg)}

/-- Where the handler is after the calls `done`, of the messages `sends`. -/
def Sending (fails : TaskId → Bool) (name : String)
    (sends done : List (TaskId × ServerToClientMsg)) : Phase → Prop
  | .doing (.send own connection msg rest bail) _ => own = name ∧ bail = false ∧
      sends = done ++ (connection, msg) :: rest ∧ ∀ call ∈ done, fails call.1 = false
  | .reacted own bail => own = name ∧ bail = false ∧
      sends = done ∧ ∀ call ∈ done, fails call.1 = false
  | .receiving own => own = name ∧ sends = done ∧ ∀ call ∈ done, fails call.1 = false
  | .doing (.leave own) .asking => own = name ∧ ∃ call ∈ sends, fails call.1 = true
  | _ => False

private theorem sending_reacting (h : ∀ call ∈ done, fails call.1 = false)
    (rest : List (TaskId × ServerToClientMsg)) :
    Sending fails name (done ++ rest) done (reacting name false rest) := by
  cases rest with
  | nil => exact ⟨rfl, rfl, by simp, h⟩
  | cons first rest => exact ⟨rfl, rfl, rfl, h⟩

/-- The step of another party is no call of this task, and leaves it where it is. -/
theorem moved_or_other (hstep : step maxClients s l = some s') (hthere : s.phase t ≠ .absent) :
    Moved s t l s' ∨ called t (s, l) = none ∧ s'.phase t = s.phase t := by
  cases stepped_of_step hstep with
  | @spawned u _ habsent _ =>
      have hne : t ≠ u := by
        rintro rfl
        exact hthere habsent
      exact .inr ⟨rfl, by simp [hne]⟩
  | turnedAway | refusal | reaped | stopped => exact .inr ⟨rfl, rfl⟩
  | @moved u l s' hmoved =>
      by_cases htu : t = u
      · subst htu
        exact .inl hmoved
      · refine .inr ⟨?_, hmoved.phase_ne htu⟩
        cases hmoved <;> simp [called, Ne.symm htu]

/-- **What the handler itself does** at its broadcast. -/
theorem Sending.moved (h : Sending fails name sends done (s.phase t))
    (hreacting : (s.phase t).isReacting) (hmoved : Moved s t l s')
    (hwrites : ∀ ok, l = .wrote t ok → ∀ call ∈ called t (s, l), ok = !fails call.1)
    (huncancelled : l ≠ .cancel t) :
    Sending fails name sends (done ++ (called t (s, l)).toList) (s'.phase t) := by
  cases hmoved with
  | timedOut hphase | joined hphase | received hphase | taken hphase | unused hphase
  | inserted hphase | reacts hphase | left hphase | refused hphase | welcomed hphase
  | unwelcomed hphase => simp [hphase, Phase.isReacting] at hreacting
  | @requested work hphase | @granted work hphase _ =>
      -- it waits for the writer
      rw [hphase] at h hreacting
      cases work with
      | send => simpa [called, Sending] using h
      | _ => simp [Phase.isReacting] at hreacting
  | returned hphase =>
      rw [hphase] at h
      obtain ⟨rfl, -, hsends, hall⟩ := h
      simpa [called, Sending, hsends] using hall
  | bailed hphase =>
      rw [hphase] at h
      exact absurd h.2.1 (by simp)
  | @sent own connection msg rest bail hphase =>
      rw [hphase] at h
      obtain ⟨rfl, rfl, rfl, hall⟩ := h
      have hcalled : called t (s, .wrote t true) = some (connection, msg) := by
        simp [called, hphase]
      have hok : fails connection = false := by
        simpa using hwrites true rfl (connection, msg) hcalled
      have hmore : ∀ call ∈ done ++ [(connection, msg)], fails call.1 = false := by
        simpa [or_imp, forall_and, hok] using hall
      rw [hcalled]
      simpa using sending_reacting hmore rest
  | @unsent own connection msg rest bail hphase =>
      rw [hphase] at h
      obtain ⟨rfl, rfl, rfl, -⟩ := h
      have hcalled : called t (s, .wrote t false) = some (connection, msg) := by
        simp [called, hphase]
      have hfails : fails connection = true := by
        simpa using hwrites false rfl (connection, msg) hcalled
      rw [Server.setPhase_phase, if_pos rfl]
      exact ⟨rfl, (connection, msg), by simp, hfails⟩
  | cancelled => exact absurd rfl huncancelled

/-- **A run** of the server while the handler is at its broadcast. -/
theorem sending_of_run (hrun : Run (Fires (step maxClients)) s trace s')
    (hreacting : ∀ p ∈ trace, (p.1.phase t).isReacting)
    (hwrites : ∀ p ∈ trace, ∀ ok, p.2 = .wrote t ok → ∀ call ∈ called t p, ok = !fails call.1)
    (huncancelled : ∀ p ∈ trace, p.2 ≠ .cancel t)
    (hinit : Sending fails name sends [] (s.phase t)) :
    Sending fails name sends (calls t trace) (s'.phase t) := by
  refine hrun.invariantTraceUnder (C := fun s l => (s.phase t).isReacting ∧
      (∀ ok, l = .wrote t ok → ∀ call ∈ called t (s, l), ok = !fails call.1) ∧ l ≠ .cancel t)
    (I := fun trace s => Sending fails name sends (calls t trace) (s.phase t))
    (fun p hp => ⟨hreacting p hp, hwrites p hp, huncancelled p hp⟩) hinit ?_
  intro trace s l s' _ h hmeets hstep
  obtain ⟨hreacting, hwrites, huncancelled⟩ := hmeets
  have hcalls : calls t (trace ++ [(s, l)]) = calls t trace ++ (called t (s, l)).toList := by
    simp only [calls, List.filterMap_append]
    cases hcalled : called t (s, l) <;> simp [hcalled]
  have hthere : s.phase t ≠ .absent := by
    intro habsent
    simp [habsent, Phase.isReacting] at hreacting
  rw [hcalls]
  rcases moved_or_other hstep hthere with hmoved | ⟨hcalled, hphase⟩
  · exact h.moved hreacting hmoved hwrites huncancelled
  · rw [hcalled, hphase]
    simpa using h

/-! ## Who is reached -/

/-- What the loop sends, in the order of the table. -/
theorem sends_broadcast {clients : HashMap String TaskId} {order : List (String × TaskId)}
    (name message : String) :
    (reactClientMsg clients order name (.broadcast message)).sends =
      (order.filter fun item => item.1 ≠ name).map fun item => (item.2, .message name message) :=
  sent_writeAll _ _

private theorem reachesOthers_sends {clients : HashMap String TaskId}
    {order : List (String × TaskId)} (horder : clients.Enumerates order) (name message : String) :
    ReachesOthers clients name message
      ((order.filter fun item => item.1 ≠ name).map
        fun item => (item.2, .message name message)) := by
  rw [ReachesOthers, ← HashMap.Enumerates.erase horder]
  simp [Function.comp_def]

/-- Once it is done, the handler is back in its loop or about to leave. -/
theorem Sending.ends {phase : Phase} (h : Sending fails name sends done phase)
    (hdone : ¬ phase.isReacting) :
    (phase = .receiving name ∧ sends = done ∧ ∀ call ∈ sends, fails call.1 = false) ∨
      phase ≠ .receiving name ∧ ∃ call ∈ sends, fails call.1 = true := by
  unfold Sending at h
  split at h
  · exact absurd rfl hdone
  · exact absurd rfl hdone
  · obtain ⟨rfl, rfl, hall⟩ := h
    exact .inl ⟨rfl, rfl, hall⟩
  · exact .inr ⟨by simp, h.2⟩
  · exact h.elim

/-- The handler sends the message to everybody else and stays, or a write fails and it leaves. -/
theorem ends_of_broadcasts (h : Broadcasts maxClients fails t name message s trace s') :
    (s'.phase t = .receiving name ∧ ReachesOthers s.clients name message (calls t trace) ∧
      ∀ other connection, other ≠ name → s.clients.lookup other = some connection →
        fails connection = false) ∨
      s'.phase t ≠ .receiving name ∧ ∃ other connection, other ≠ name ∧
        s.clients.lookup other = some connection ∧ fails connection = true := by
  obtain ⟨-, hreceived, ⟨order, s₁, hact, hrun⟩, hreacting, hwrites, huncancelled, hdone⟩ := h
  cases moved_of_act hact with
  | @reacts own msg _ hphase horder =>
      obtain ⟨rfl, rfl⟩ : own = name ∧ msg = .broadcast message := by
        simpa using hphase.symm.trans hreceived
      have hinit : Sending fails own (reactClientMsg s.clients order own (.broadcast message)).sends
          [] ((s.setPhase t (reacting own
            (reactClientMsg s.clients order own (.broadcast message)).bail
            (reactClientMsg s.clients order own (.broadcast message)).sends)).phase t) := by
        have hnone : ∀ call ∈ ([] : List (TaskId × ServerToClientMsg)), fails call.1 = false := by
          simp
        rw [Server.setPhase_phase, if_pos rfl]
        exact sending_reacting hnone _
      have hends := (sending_of_run hrun hreacting hwrites huncancelled hinit).ends hdone
      rw [sends_broadcast] at hends
      rcases hends with ⟨hphase', hcalls, hall⟩ | ⟨hphase', call, hmem, hfails⟩
      · refine .inl ⟨hphase', hcalls ▸ reachesOthers_sends horder own message, ?_⟩
        intro other connection hne hlookup
        refine hall (connection, .message own message) ?_
        refine List.mem_map.mpr ⟨(other, connection), ?_, rfl⟩
        exact List.mem_filter.mpr ⟨horder.mem_iff.mpr hlookup, by simpa using hne⟩
      · obtain ⟨item, hitem, rfl⟩ := List.mem_map.mp hmem
        obtain ⟨hitem, hne⟩ := List.mem_filter.mp hitem
        exact .inr ⟨hphase', item.1, item.2, by simpa using hne, horder.mem_iff.mp hitem, hfails⟩
  | _ => simp_all

/-! ## Every broadcast -/

/-- **A broadcast reaches everybody**, and the sender stays in its loop, if and only if no
write to another client fails. -/
theorem broadcast_reaches_iff (h : Broadcasts maxClients fails t name message s trace s') :
    (ReachesOthers s.clients name message (calls t trace) ∧ s'.phase t = .receiving name) ↔
      ∀ other connection, other ≠ name → s.clients.lookup other = some connection →
        fails connection = false := by
  rcases ends_of_broadcasts h with ⟨hphase, hreaches, hall⟩ | ⟨hphase, hexists⟩
  · exact ⟨fun _ => hall, fun _ => ⟨hreaches, hphase⟩⟩
  · obtain ⟨other, connection, hne, hlookup, hfails⟩ := hexists
    refine ⟨fun h => absurd h.2 hphase, fun hall => ?_⟩
    rw [hall other connection hne hlookup] at hfails
    cases hfails

/-- Clients of these names are in their loops, as tasks 0, 1, .., and the first is about to
broadcast. -/
def crowd (names : List String) (message : String) : Server where
  acceptor := .listening
  joinSet := List.range names.length
  clients := names.zipIdx.foldl (fun clients client => clients.insert client.1 client.2) ∅
  phase t :=
    match names[t]? with
    | none => .absent
    | some name => if t = 0 then .doing (.react name (.broadcast message)) .holding
        else .receiving name
  lock id := if id = .clients then FairLock.free.request 0 .shared else .free

/-- The first client of a crowd serves its broadcast with these labels. -/
theorem exists_broadcasts (maxClients : ℕ) (fails : TaskId → Bool) (names : List String)
    (name message : String) (order : List (String × TaskId)) (labels : List Label)
    (hregistered : (crowd names message).clients.lookup name = some 0)
    (hreceived : (crowd names message).phase 0 = .doing (.react name (.broadcast message)) .holding)
    (horder : (crowd names message).clients.Enumerates order)
    (hlabels : (replay (step maxClients) ((crowd names message).setPhase 0 (reacting name false
        (reactClientMsg (crowd names message).clients order name (.broadcast message)).sends))
        labels).any (fun r => decide ((∀ p ∈ r.1, (p.1.phase 0).isReacting) ∧
          (∀ p ∈ r.1, ∀ ok, p.2 = .wrote 0 ok → ∀ call ∈ called 0 p, ok = !fails call.1) ∧
          (∀ p ∈ r.1, p.2 ≠ .cancel 0) ∧ ¬ (r.2.phase 0).isReacting)) = true) :
    ∃ trace s', Broadcasts maxClients fails 0 name message (crowd names message) trace s' := by
  obtain ⟨trace, s', hrun, hmeets⟩ := exists_run_of_replay _ _ _ _ hlabels
  obtain ⟨hreacting, hwrites, huncancelled, hdone⟩ := of_decide_eq_true hmeets
  refine ⟨trace, s', hregistered, hreceived, ⟨order, _, ?_, hrun⟩, hreacting, hwrites,
    huncancelled, hdone⟩
  simp [step, act, hreceived, horder]
  rfl

theorem broadcast_reaches_two :
    ∃ (trace : List (Server × Label)) (s' : Server),
      ReachesOthers (crowd ["a", "b"] "hi").clients "a" "hi" (calls 0 trace) ∧
        s'.phase 0 = .receiving "a" := by
  obtain ⟨trace, s', h⟩ := exists_broadcasts 2 (fun _ => false) ["a", "b"] "a" "hi"
    [("a", 0), ("b", 1)] (sends 0 ++ [.act 0 []]) (by decide) (by decide) (by decide) (by decide)
  exact ⟨trace, s', (broadcast_reaches_iff h).mpr fun _ _ _ _ => rfl⟩

/-- **A dead client cuts a broadcast short.**  The write to "b" fails, "c" is not told, and "a"
leaves. -/
theorem dead_client_stops_broadcast :
    ¬ ∀ (maxClients : ℕ) (fails : TaskId → Bool) (t : TaskId) (name message : String)
      (s : Server) (trace : List (Server × Label)) (s' : Server),
      Broadcasts maxClients fails t name message s trace s' →
        ReachesOthers s.clients name message (calls t trace) ∧ s'.phase t = .receiving name := by
  intro hclaim
  obtain ⟨trace, s', h⟩ := exists_broadcasts 3 (fun t => t == 1) ["a", "b", "c"] "a" "hi"
    [("a", 0), ("b", 1), ("c", 2)] [.request 0, .grant 0, .wrote 0 false]
    (by decide) (by decide) (by decide) (by decide)
  rcases ends_of_broadcasts h with ⟨-, -, hall⟩ | ⟨hphase, -⟩
  · have hfine := hall "b" 1 (by decide) (by decide)
    cases hfine
  · exact hphase (hclaim _ _ _ _ _ _ _ _ h).2

end RustCourse.Lesson10Parallel
