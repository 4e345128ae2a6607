import RustCourse.Lesson10.Steps

/-!
# Which clients can end another client's session

A handler should leave its receive loop only for a reason of its own client
(`OwnExit`): its stream ended or could not be read, it sent a second `Join`, or a
write to its own socket failed.  The code does not keep this.  There are three ways
in which one client ends the session of another:

* a message is addressed to a client whose receiver was dropped while its entry is
  still in the map; the `?` after `channel.send` then ends the *sender's* loop;
* an insert replaces the entry of a handler that is still in its loop, since between
  the `contains_key` of `join_client` and the insert lies the write of `Welcome`; the
  replaced handler then receives `None` from its own channel;
* the write of "Server is full" to a refused connection fails, and the `?` after it
  returns from `run_server`, which cancels every handler.

`Undisturbed` excludes exactly these steps (and the stop signal), and
`exit_own_of_undisturbed` proves that in its absence every exit is the client's own.
The invariant that carries the proof is `Owned`: a handler in its loop holds the
entry of its name.

A step in which a handler leaves is looked up in `Moved`, where each way out has its reason;
the three above are the ones that are not the client's own, and `Undisturbed` is their
negation.
-/

namespace RustCourse.Lesson10

open Chat Transition

/-! ## Who a request is for -/

/-- The names a request of client `name` is delivered to. -/
def Addresses (name : String) : ClientToServerMsg → String → Prop
  | .sendDM recipient _, other => other = recipient ∧ other ≠ name
  | .broadcast _, other => other ≠ name
  | .join _, _ => False
  | .ping, _ => False
  | .listUsers, _ => False

/-- The targets of a request are the channels of the names it addresses. -/
theorem mem_targets_iff {clients : HashMap String TaskId} {order : List (String × TaskId)}
    {name : String} {msg : ClientToServerMsg} {targets : List TaskId}
    {forwarded : ServerToClientMsg} (horder : clients.Enumerates order)
    (hreact : reactClientMsg clients order name msg = .sends targets forwarded)
    {target : TaskId} :
    target ∈ targets ↔ ∃ other, Addresses name msg other ∧ clients.lookup other = some target := by
  cases msg with
  | join | ping | listUsers => simp [reactClientMsg] at hreact
  | broadcast message =>
      simp only [reactClientMsg, Reaction.sends.injEq] at hreact
      rw [← hreact.1]
      simp [Addresses, horder.mem_iff, and_comm]
  | sendDM recipient message =>
      simp only [reactClientMsg] at hreact
      split at hreact
      · cases hreact
      · next hother =>
          cases hlookup : clients.lookup recipient with
          | none => simp [hlookup] at hreact
          | some channel =>
              simp only [hlookup, Reaction.sends.injEq] at hreact
              rw [← hreact.1]
              constructor
              · intro htarget
                obtain rfl := List.mem_singleton.mp htarget
                exact ⟨recipient, ⟨rfl, hother⟩, hlookup⟩
              · rintro ⟨other, ⟨rfl, -⟩, hchannel⟩
                exact List.mem_singleton.mpr (Option.some.inj (hchannel.symm.trans hlookup))

/-! ## Own exits -/

/-- The step takes task `t` out of its loop for a reason of its own client: the client's
stream ended or delivered something unreadable or over-long, a write to the client's
socket failed, or the client sent a second `Join`, which was just answered. -/
def OwnExit (events : List Event) (s : Server) (l : Label) (t : TaskId) : Prop :=
  match l with
  | .recv u got _ => u = t ∧ (got = .err ∨ got = .eof ∨ got = .panics)
  | .wrote u ok => u = t ∧ (ok = false ∨
      (∃ name reply, (s.task t).phase = .replying name reply true) ∧
        ∃ name, Event.request t (.join name) ∈ events)
  | _ => False

theorem joinClient_ne_replying (clients : HashMap String TaskId) (got : Received) (name : String)
    (reply : ServerToClientMsg) (bail : Bool) :
    joinClient clients got ≠ .replying name reply bail := by
  unfold joinClient
  split <;> (try split) <;> simp

private theorem eq_join_of_bail {clients : HashMap String TaskId} {order : List (String × TaskId)}
    {name : String} {msg : ClientToServerMsg} {reply : ServerToClientMsg}
    (h : reactClientMsg clients order name msg = .reply reply true) :
    ∃ joined, msg = .join joined := by
  cases msg with
  | join joined => exact ⟨joined, rfl⟩
  | ping | listUsers | broadcast => simp [reactClientMsg] at h
  | sendDM recipient message =>
      simp only [reactClientMsg] at h
      split at h
      · simp at h
      · split at h <;> simp at h

/-- A task comes to answer and bail out by reading a second `Join`. -/
theorem bail_of_moved {s s' : Server} {l : Label} (h : Moved s l s') {u : TaskId} {name : String}
    {reply : ServerToClientMsg} (hu : (s'.task u).phase = .replying name reply true) :
    (s.task u).phase = .replying name reply true ∨
      ∃ joined order, l = .recv u (.msg (.join joined)) order ∧
        (s.task u).phase = .receiving name := by
  cases h with
  | turnedAway | refused | reaped => exact .inl hu
  | refusalFailed | stopped => exact .inl (Server.phase_of_shutDown hu (by simp))
  | joined => exact .inl (Server.phase_of_setTask hu (joinClient_ne_replying _ _ _ _ _))
  | @answering t name' msg order reply' bail hphase _ hreact =>
      by_cases hut : u = t
      · subst hut
        simp only [Server.setPhase_task, if_true, Phase.replying.injEq] at hu
        obtain ⟨rfl, rfl, rfl⟩ := hu
        obtain ⟨joined, rfl⟩ := eq_join_of_bail hreact
        exact .inr ⟨joined, order, rfl, hphase⟩
      · exact .inl (by simpa [hut] using hu)
  | delivered =>
      rw [Server.sendAll_phase] at hu
      exact .inl hu
  | undelivered =>
      have hsent := Server.phase_of_setTask hu (by simp)
      rw [Server.sendAll_phase] at hsent
      exact .inl hsent
  | _ => exact .inl (Server.phase_of_setTask hu (by simp))

/-- A handler bails out after a reply only when its client sent a second `Join`. -/
theorem request_join_of_bail {maxClients : ℕ} {trace : List (Server × Label)} {s : Server}
    (hrun : Run (Fires (step maxClients)) Server.init trace s) :
    ∀ {t : TaskId} {name : String} {reply : ServerToClientMsg},
      (s.task t).phase = .replying name reply true →
        ∃ joined, Event.request t (.join joined) ∈ history maxClients trace := by
  refine hrun.invariantTrace
    (I := fun trace s => ∀ {t name reply}, (s.task t).phase = .replying name reply true →
      ∃ joined, Event.request t (.join joined) ∈ history maxClients trace) ?_ ?_
  · intro t name reply hphase
    simp [Server.init] at hphase
  · intro trace s l s' _ ih hstep t name reply hphase
    rw [history_snoc]
    rcases bail_of_moved (moved_of_step hstep) hphase with
      hbefore | ⟨joined, order, rfl, hreceiving⟩
    · obtain ⟨joined, hmem⟩ := ih hbefore
      exact ⟨joined, List.mem_append_left _ hmem⟩
    · refine ⟨joined, List.mem_append_right _ ?_⟩
      simp [observe, hreceiving]

/-! ## The condition -/

/-- The step does not let one client reach into the session of another: no message is
addressed to a name whose receiver was dropped, no insert replaces the entry of a
handler in its loop, and `run_server` does not return while handlers are in theirs. -/
def Undisturbed (s : Server) : Label → Prop
  | .recv t (.msg msg) _ => ∀ name, (s.task t).phase = .receiving name →
      ∀ other target, Addresses name msg other → s.clients.lookup other = some target →
        s.isOpen target = true
  | .wrote t true => ∀ name, (s.task t).phase = .welcoming name →
      ∀ target, s.clients.lookup name = some target → s.serving target = none
  | .refused false => ∀ t, s.serving t = none
  | .stop => ∀ t, s.serving t = none
  | _ => True

/-! ## Who has an entry -/

/-- A handler in its loop holds the entry of its name. -/
def Owned (s : Server) : Prop :=
  ∀ t name, s.serving t = some name → s.clients.lookup name = some t

private theorem not_undelivered_of_undisturbed {s : Server} {t : TaskId} {msg : ClientToServerMsg}
    {order : List (String × TaskId)} {name : String} {targets : List TaskId}
    {forwarded : ServerToClientMsg} {target : TaskId}
    (hmeets : Undisturbed s (.recv t (.msg msg) order))
    (hphase : (s.task t).phase = .receiving name)
    (horder : s.clients.Enumerates order)
    (hreact : reactClientMsg s.clients order name msg = .sends targets forwarded)
    (hmem : target ∈ targets) : s.isOpen target = true := by
  obtain ⟨other, haddr, hlookup⟩ := (mem_targets_iff horder hreact).mp hmem
  exact hmeets name hphase other target haddr hlookup

/-- Being owned is lost only by an insert over the entry of a handler in its loop. -/
theorem owned_step {maxClients : ℕ} {s s' : Server} {l : Label} (howned : Owned s)
    (hfree : ∀ t name, l = .wrote t true → (s.task t).phase = .welcoming name →
      ∀ target, s.clients.lookup name = some target → s.serving target = none)
    (hstep : step maxClients s l = some s') : Owned s' := by
  intro u other hu
  cases effect_of_step hstep with
  | quiet hclients hserving =>
      rw [hserving] at hu
      rw [hclients]
      exact howned u other hu
  -- the handler that is inserted finds its name free, so nobody loses an entry
  | @insert t name hl hphase hclients hserving =>
      rw [hserving] at hu
      rw [hclients]
      by_cases hut : u = t
      · simp only [hut, if_true, Option.some.injEq] at hu
        rw [hut, ← hu, Finmap.lookup_insert]
      · simp only [hut, if_false] at hu
        have hother : other ≠ name := by
          intro heq
          subst heq
          have := hfree t other hl hphase u (howned u other hu)
          simp [this] at hu
        rw [Finmap.lookup_insert_of_ne _ hother]
        exact howned u other hu
  | @leave t name _ ht hclients hserving =>
      rw [hserving] at hu
      rw [hclients]
      by_cases hut : u = t
      · simp [hut] at hu
      · simp only [hut, if_false] at hu
        -- the name that is removed is that of the handler which leaves
        have hother : other ≠ name := by
          intro heq
          subst heq
          have := (howned u other hu).symm.trans (howned t other ht)
          exact hut (Option.some.inj this)
        rw [Finmap.lookup_erase_ne hother]
        exact howned u other hu
  | drop _ _ hclients _ hserving =>
      rw [hserving] at hu
      rw [hclients]
      split at hu
      · cases hu
      · exact howned u other hu
  | shutDown _ _ hserving => simp [hserving] at hu

private theorem owned_of_undisturbed {maxClients : ℕ} {trace : List (Server × Label)} {s : Server}
    (hrun : Run (Fires (step maxClients)) Server.init trace s)
    (hmeets : ∀ p ∈ trace, Undisturbed p.1 p.2) : Owned s :=
  hrun.invariantUnder hmeets (fun t name h => by simp [Server.serving, Server.init] at h)
    fun _ _ _ howned hmeets hstep =>
      owned_step howned (fun _ name hl hphase => by subst hl; exact hmeets name hphase) hstep

/-! ## Every run -/

/-- **Isolation.**  In a run whose steps are undisturbed, a handler leaves its loop only
for a reason of its own client. -/
theorem exit_own_of_undisturbed {maxClients : ℕ} {trace : List (Server × Label)}
    {s s' : Server} {l : Label} {t : TaskId}
    (hrun : Run (Fires (step maxClients)) Server.init trace s)
    (hmeets : ∀ p ∈ trace, Undisturbed p.1 p.2)
    (hstep : step maxClients s l = some s') (hlast : Undisturbed s l)
    (hin : s.serving t ≠ none) (hout : s'.serving t = none) :
    OwnExit (history maxClients trace) s l t := by
  have howned := owned_of_undisturbed hrun hmeets
  -- the handler that leaves its loop is `t`
  have hsame : ∀ {u : TaskId} {r : Option String},
      (∀ v, s'.serving v = if v = u then r else s.serving v) → u = t := by
    intro u r hserving
    by_contra hut
    rw [hserving, if_neg (Ne.symm hut)] at hout
    exact hin hout
  cases effect_of_step hstep with
  | quiet _ hserving => exact absurd ((hserving t).symm.trans hout) hin
  | @insert u name _ _ _ hserving =>
      have hut := hsame hserving
      simp [hserving, hut] at hout
  | @leave u name hleaves hname _ hserving =>
      have hut := hsame hserving
      subst hut
      cases hleaves with
      | unread hgot =>
          rcases hgot with rfl | rfl
          · exact ⟨rfl, .inl rfl⟩
          · exact ⟨rfl, .inr (.inl rfl)⟩
      -- a recipient is in its loop, so its channel is open
      | undelivered hphase horder hreact hmem hclosed =>
          have := not_undelivered_of_undisturbed hlast hphase horder hreact hmem
          simp [hclosed] at this
      -- the entry of the handler holds its sender
      | orphaned hsender =>
          have := Server.hasSender_iff.mpr ⟨name, howned u name hname⟩
          simp [hsender] at this
      | @bailed _ ok name reply bail hphase hends =>
          rcases hends with rfl | rfl
          · exact ⟨rfl, .inl rfl⟩
          · exact ⟨rfl, .inr ⟨⟨name, reply, hphase⟩, request_join_of_bail hrun hphase⟩⟩
  | @drop u name hdrops hname _ _ hserving =>
      have hut := hsame hserving
      subst hut
      cases hdrops with
      | panicked => exact ⟨rfl, .inr (.inr rfl)⟩
      | unforwarded => exact ⟨rfl, .inl rfl⟩
  | shutDown hl _ _ =>
      rcases hl with rfl | rfl
      · exact absurd (hlast t) hin
      · exact absurd (hlast t) hin

/-- Two clients join, and the first sends a DM to the second.  The write of it fails, so the
handler of the second leaves its loop, and the first stays in its own. -/
theorem exit_own_of_undisturbed_dm :
    ∃ trace s s', Run (Fires (step 2)) Server.init trace s ∧
      step 2 s (.wrote 1 false) = some s' ∧ s.serving 1 = some "b" ∧ s'.serving 1 = none ∧
      s'.serving 0 = some "a" ∧ OwnExit (history 2 trace) s (.wrote 1 false) 1 := by
  -- both clients join, "a" sends a DM, and its recipient takes it from the queue
  have start : Run (Fires (step 2)) Server.init [] Server.init := .nil
  have joined := (((((start.fire (.accept 0) rfl).fire (.recv 0 (.msg (.join "a")) []) rfl).fire
    (.wrote 0 true) rfl).fire (.accept 1) rfl).fire (.recv 1 (.msg (.join "b")) []) rfl).fire
    (.wrote 1 true) rfl
  have hrun := (joined.fire (.recv 0 (.msg (.sendDM "b" "hello")) [("a", 0), ("b", 1)]) rfl).fire
    (.dequeue 1) rfl
  have hin := Option.some_ne_none "b"
  refine ⟨_, _, _, hrun, rfl, rfl, rfl, rfl,
    exit_own_of_undisturbed hrun ?_ rfl trivial hin rfl⟩
  intro p hp
  simp only [List.nil_append, List.cons_append, List.mem_cons, List.not_mem_nil, or_false] at hp
  rcases hp with rfl | rfl | rfl | rfl | rfl | rfl | rfl | rfl
  · trivial
  · rintro name hphase
    cases hphase
  · intro name hphase target hlookup
    cases hlookup
  · trivial
  · rintro name hphase
    cases hphase
  · -- nobody has the name
    intro name hphase target hlookup
    cases hphase
    cases hlookup
  · -- the recipient is in its loop
    rintro name hphase other target ⟨rfl, -⟩ hlookup
    cases hlookup
    rfl
  · trivial

/-- A broadcast to the entry of a client whose socket is broken ends the broadcaster's loop. -/
theorem broadcast_to_broken_client_ends_sender :
    ∃ trace s l s' t, Run (Fires (step 2)) Server.init trace s ∧ step 2 s l = some s' ∧
      s.serving t ≠ none ∧ s'.serving t = none ∧ ¬ OwnExit (history 2 trace) s l t := by
  let last : Label := .recv 0 (.msg (.broadcast "hi")) [("b", 1), ("a", 0)]
  obtain ⟨trace, s, hrun, hp⟩ := exists_run_of_replay (step 2) Server.init
    [.accept 0, .recv 0 (.msg (.join "a")) [], .wrote 0 true,
      .accept 1, .recv 1 (.msg (.join "b")) [], .wrote 1 true,
      .recv 0 (.msg (.sendDM "b" "hello")) [("a", 0), ("b", 1)], .dequeue 1, .wrote 1 false]
    (fun r => (step 2 r.2 last).any fun s' => (r.2.serving 0).isSome && (s'.serving 0).isNone)
    (by decide +kernel)
  cases hlast : step 2 s last with
  | none => simp [hlast] at hp
  | some s' =>
      simp only [hlast, Option.any_some, Bool.and_eq_true] at hp
      refine ⟨trace, s, last, s', 0, hrun, hlast, ?_, by simpa using hp.2, ?_⟩
      · exact Option.isSome_iff_ne_none.mp hp.1
      · rintro ⟨-, h | h | h⟩ <;> cases h

end RustCourse.Lesson10
