import RustCourse.Agreement
import RustCourse.Chat.Room
import RustCourse.Lesson10.Transcript

/-!
# The lesson 10 server is a chat room

The handlers overlap, a message waits in a queue until the handler of its recipient takes
it out, and an answer overtakes what is queued.  Still all clients are told things in one
order, the order in which the handlers process requests: `told_in_streams` compares every
client in its loop with the inbox of a member of a `Room`, whose operations the run makes
one after the other (`opsOf`).  What the handler has written, followed by what is queued
for it, is in streams what is in the inbox: the answers of the server in their order, and
the messages of all the other clients in theirs.

The room is one of names.  So the theorem asks that no insert replaces the entry of another
client (`Unraced`; a name that is free again may be used again), and that no handler is
dropped with its entry in the map.
-/

namespace RustCourse.Lesson10

open Chat Groups Transition

/-! ## The operations of a run -/

/-- The operations that a step makes on the room. -/
def opsOf (s : Server) : Label → List (Op String Content)
  | .recv t got _ =>
      match (s.task t).phase, got with
      | .receiving name, .msg msg => [request name msg]
      | .receiving name, .err => [.leave name]
      | .receiving name, .eof => [.leave name]
      | _, _ => []
  | .dequeue t =>
      match (s.task t).phase, (s.task t).queue with
      | .receiving name, [] => [.leave name]
      | _, _ => []
  | .wrote t ok =>
      match (s.task t).phase with
      | .welcoming name => if ok then [enter name] else []
      | .replying name _ bail => if ok && !bail then [] else [.leave name]
      | _ => []
  | .refused false => [.dissolve]
  | .stop => [.dissolve]
  | _ => []

/-- The room after the operations of a run. -/
def roomOf (trace : List (Server × Label)) : Room :=
  Group.empty.after (trace.flatMap fun p => opsOf p.1 p.2)

@[simp] theorem roomOf_snoc (trace : List (Server × Label)) (s : Server) (l : Label) :
    roomOf (trace ++ [(s, l)]) = (roomOf trace).after (opsOf s l) := by
  simp [roomOf]

/-- The step inserts no name that is in the map. -/
def Unraced (s : Server) : Label → Prop
  | .wrote t true => ∀ name, (s.task t).phase = .welcoming name → name ∉ s.clients
  | _ => True

/-- The step replaces no entry and drops no handler. -/
def Orderly (s : Server) (l : Label) : Prop :=
  Unraced s l ∧ ∀ t, ¬ Drops s l t

/-- What the handler of task `t` has written or is writing, and what is queued for it. -/
def told (events : List Event) (s : Server) (t : TaskId) : List Content :=
  (sentTo t events ++ (s.task t).queue).map ServerToClientMsg.content

variable {maxClients : ℕ} {trace : List (Server × Label)} {s s' : Server} {l : Label}
  {b : TaskId} {name : String} {g : Room}

theorem owned_of_unraced (hrun : Run (Fires (step maxClients)) Server.init trace s)
    (hunraced : ∀ p ∈ trace, Unraced p.1 p.2) : Owned s := by
  refine hrun.invariantUnder hunraced (fun t name h => by simp [Server.serving, Server.init] at h)
    fun s l s' howned hunraced hstep => owned_step howned ?_ hstep
  rintro t name rfl hphase target hlookup
  exact absurd (Finmap.mem_of_lookup_eq_some hlookup) (hunraced name hphase)

/-! ## The members -/

theorem members_shutDown : (g.after [Op.dissolve]).members = s.shutDown.clients.keys := by
  simp [Group.apply, Server.shutDown]

theorem members_leave {t : TaskId} (hmembers : g.members = s.clients.keys) :
    (g.after [Op.leave name]).members = (s.leave t name).clients.keys := by
  simp [hmembers]

/-- The members are the names in the map. -/
theorem members_of_moved (howned : Owned s) (hserved : EntriesServed s)
    (hmembers : g.members = s.clients.keys) (hmoved : Moved s l s') :
    (g.after (opsOf s l)).members = s'.clients.keys := by
  cases hmoved with
  | turnedAway | refused | reaped | spawned | timedOut => exact hmembers
  | refusalFailed | stopped => exact members_shutDown
  | @joined t got order hphase => simp [opsOf, hphase, hmembers]
  | @unread t name got order hphase hgot =>
      rcases hgot with rfl | rfl <;> simp only [opsOf, hphase] <;> exact members_leave hmembers
  | panicked hphase => simp [opsOf, hphase, hmembers]
  | answering hphase => simpa [opsOf, hphase, request] using hmembers
  | delivered hphase =>
      rw [Server.sendAll_clients]
      simpa [opsOf, hphase, request] using hmembers
  | @undelivered t sender msg order targets forwarded target hphase horder hreact hmem hclosed =>
      -- an entry of the map belongs to a handler in its loop, so its channel is open
      obtain ⟨key, _, hlookup⟩ := (mem_targets_iff horder hreact).mp hmem
      have hopen := Server.isOpen_iff.mpr ⟨key, hserved key target hlookup⟩
      simp [hopen] at hclosed
  | dequeued hphase hqueue => simp [opsOf, hphase, hqueue, hmembers]
  | @orphaned t name hphase hsender =>
      have hentry := howned t name (by simp [Server.serving, hphase])
      simp [Server.hasSender_iff.mpr ⟨name, hentry⟩] at hsender
  | notJoined hphase =>
      rcases hphase with ⟨reply, hphase⟩ | ⟨name, hphase, rfl⟩ <;> simp [opsOf, hphase, hmembers]
  | @inserted t name hphase =>
      ext k
      simp [opsOf, hphase, enter, hmembers, Finmap.mem_keys]
  | answered hphase => simp [opsOf, hphase, hmembers]
  | bailed hphase hends =>
      rcases hends with rfl | rfl <;> simp only [opsOf, hphase] <;> simp [hmembers]
  | forwarded hphase | unforwarded hphase => simp [opsOf, hphase, hmembers]

/-! ## What a step tells a member -/

/-- An operation about another client is none about the membership of `name`. -/
theorem keeps_of_moved (howned : Owned s) (hunraced : Unraced s l) (hmoved : Moved s l s')
    (hb : s.serving b = some name) (hb' : s'.serving b = some name) :
    ∀ op ∈ opsOf s l, Group.Keeps name op := by
  -- only the owner of a name can take it out of the room
  have hleaver : ∀ {t other}, s.serving t = some other → s'.serving t = none → other ≠ name := by
    rintro t other ht ht' rfl
    obtain rfl := Option.some.inj ((howned t other ht).symm.trans (howned b other hb))
    simp [ht'] at hb'
  cases hmoved with
  | turnedAway | refused | reaped | spawned | timedOut => simp [opsOf]
  | refusalFailed | stopped =>
      simp only [Server.serving, Server.shutDown] at hb'
      split at hb'
      · next habsent => simp [habsent] at hb'
      · cases hb'
  | @joined t got order hphase => simp [opsOf, hphase]
  -- the ways to leave the loop: the room loses the name of the one who leaves
  | @unread t other got order hphase hgot =>
      have hne := @hleaver t other (by simp [Server.serving, hphase])
        (by simp [Server.serving])
      rcases hgot with rfl | rfl <;> simpa [opsOf, hphase, Group.Keeps] using hne
  | panicked hphase => simp [opsOf, hphase]
  | answering hphase | delivered hphase | undelivered hphase =>
      simp [opsOf, hphase, request, Group.Keeps]
  | dequeued hphase hqueue => simp [opsOf, hphase, hqueue]
  | @orphaned t other hphase hsender =>
      have hentry := howned t other (by simp [Server.serving, hphase])
      simp [Server.hasSender_iff.mpr ⟨other, hentry⟩] at hsender
  | notJoined hphase =>
      rcases hphase with ⟨reply, hphase⟩ | ⟨name, hphase, rfl⟩ <;> simp [opsOf, hphase]
  -- the name that is inserted is nobody else's
  | @inserted t other hphase =>
      have hne : other ≠ name := by
        rintro rfl
        exact hunraced other hphase (Finmap.mem_of_lookup_eq_some (howned b other hb))
      simpa [opsOf, hphase, enter, Group.Keeps] using hne
  | answered hphase => simp [opsOf, hphase]
  | @bailed t ok other reply bail hphase hends =>
      have hne := @hleaver t other (by simp [Server.serving, hphase])
        (by simp [Server.serving])
      rcases hends with rfl | rfl <;> simpa [opsOf, hphase, Group.Keeps] using hne
  | forwarded hphase | unforwarded hphase => simp [opsOf, hphase]

/-- What the member of task `b` hears of a request is what the reaction to it delivers to
`b`. -/
theorem hears_of_reaction (howned : Owned s) (hserved : EntriesServed s)
    (hb : s.serving b = some name) {t : TaskId} {sender : String} {msg : ClientToServerMsg}
    {order : List (String × TaskId)} (ht : s.serving t = some sender)
    (horder : s.clients.Enumerates order) {sends : List (TaskId × ServerToClientMsg)}
    (hsends : ((reactClientMsg s.clients order sender msg).response t).deliveries =
      deliveries sends) :
    hears sender msg s.clients.keys name =
      (sends.filter fun send => send.1 = b).map fun send => send.2.content := by
  have honly : ∀ other, s.clients.lookup other = some b → other = name := fun other hlookup =>
    Option.some.inj ((hserved other b hlookup).symm.trans hb)
  rw [reactClientMsg_response horder] at hsends
  exact (hears_of_sends hsends.symm (howned t sender ht) (howned b name hb) honly).symm

/-- Only a `recv`, a timeout and a message in the queue make a handler write. -/
theorem sentTo_observe_eq_nil (hstep : step maxClients s l = some s')
    (hrecv : ∀ got order, l ≠ .recv b got order) (htimeout : l ≠ .timeout b)
    (hdequeue : l ≠ .dequeue b) : sentTo b (observe maxClients s l) = [] := by
  apply sentTo_eq_nil
  intro msg hmem
  rcases (of_mem_send hstep hmem).2 with ⟨got, order, hl⟩ | hl | hl
  · exact hrecv got order hl
  · exact htimeout hl
  · exact hdequeue hl

/-- The step neither resumes `b` nor says anything to it. -/
theorem told_of_quiet (hstep : step maxClients s l = some s')
    (hqueue : (s'.task b).queue = (s.task b).queue)
    (hrecv : ∀ got order, l ≠ .recv b got order) (htimeout : l ≠ .timeout b)
    (hdequeue : l ≠ .dequeue b) (hheard : Group.heard name g (opsOf s l) = [])
    (sent : List ServerToClientMsg) :
    InStreams ((sent ++ sentTo b (observe maxClients s l) ++ (s'.task b).queue).map
        ServerToClientMsg.content)
      ((sent ++ (s.task b).queue).map ServerToClientMsg.content ++
        Group.heard name g (opsOf s l)) := by
  rw [sentTo_observe_eq_nil hstep hrecv htimeout hdequeue, hqueue, hheard, List.append_nil,
    List.append_nil]
  exact .refl _

/-- A request that its handler answers. -/
theorem told_of_answering {t : TaskId} {sender : String} {msg : ClientToServerMsg}
    {order : List (String × TaskId)} {reply : ServerToClientMsg} {bail : Bool}
    (hstep : step maxClients s (.recv t (.msg msg) order) =
      some (s.setPhase t (.replying sender reply bail)))
    (howned : Owned s) (hserved : EntriesServed s) (honly : OnlyMessages s)
    (hmembers : g.members = s.clients.keys) (hb : s.serving b = some name)
    (hphase : (s.task t).phase = .receiving sender) (horder : s.clients.Enumerates order)
    (hreact : reactClientMsg s.clients order sender msg = .reply reply bail)
    (sent : List ServerToClientMsg) :
    InStreams ((sent ++ sentTo b (observe maxClients s (.recv t (.msg msg) order)) ++
          ((s.setPhase t (.replying sender reply bail)).task b).queue).map
        ServerToClientMsg.content)
      ((sent ++ (s.task b).queue).map ServerToClientMsg.content ++
        Group.heard name g (opsOf s (.recv t (.msg msg) order))) := by
  -- the step answers `t` itself and leaves its queue alone
  have hevents : observe maxClients s (.recv t (.msg msg) order) =
      [.request t msg, .send t reply] := by
    simp [observe, sendEvent, hstep, hphase, Phase.writing]
  have hqueue : ((s.setPhase t (.replying sender reply bail)).task b).queue =
      (s.task b).queue := by
    by_cases hbt : b = t <;> simp [hbt]
  have hserving : s.serving t = some sender := by simp [Server.serving, hphase]
  have hsends : ((reactClientMsg s.clients order sender msg).response t).deliveries =
      deliveries [(t, reply)] := by
    rw [hreact]
    rfl
  have hheard := hears_of_reaction howned hserved hb hserving horder hsends
  have hmessage := (replyTo_of_reply horder hreact).2
  have hops : opsOf s (.recv t (.msg msg) order) = [request sender msg] := by
    simp [opsOf, hphase]
  rw [hevents, hqueue, hops, heard_request, hmembers, hheard]
  by_cases htb : t = b
  · -- the answer is written at once, and what is queued for `b` comes after it
    have hovertake := @InStreams.overtake reply.content
      ((s.task b).queue.map ServerToClientMsg.content) ?_ ?_
    · simpa [sentTo, htb] using (InStreams.refl (sent.map ServerToClientMsg.content)).append
        hovertake
    · cases reply <;> first | rfl | cases hmessage
    · intro content hcontent
      obtain ⟨queued, hqueued, rfl⟩ := List.mem_map.mp hcontent
      have := honly b queued hqueued
      cases queued <;> first | rfl | cases this
  · simpa [sentTo, htb] using InStreams.refl _

private theorem copies_of_targets (targets : List TaskId) (msg : ServerToClientMsg) :
    ((targets.map fun target => (target, msg)).filter fun send => send.1 = b).map
      (fun send => send.2.content) = List.replicate (targets.count b) msg.content := by
  induction targets with
  | nil => rfl
  | cons target rest ih =>
      by_cases htarget : target = b
      · simp [htarget, ih, List.replicate_succ]
      · simp [htarget, ih]

/-- A request that its handler passes on. -/
theorem told_of_delivered {t : TaskId} {sender : String} {msg : ClientToServerMsg}
    {order : List (String × TaskId)} {targets : List TaskId} {forwarded : ServerToClientMsg}
    (hstep : step maxClients s (.recv t (.msg msg) order) = some (s.sendAll forwarded targets).1)
    (howned : Owned s) (hserved : EntriesServed s) (hmembers : g.members = s.clients.keys)
    (hb : s.serving b = some name) (hphase : (s.task t).phase = .receiving sender)
    (horder : s.clients.Enumerates order)
    (hreact : reactClientMsg s.clients order sender msg = .sends targets forwarded)
    (hopen : ∀ target ∈ targets, s.isOpen target = true) (sent : List ServerToClientMsg) :
    InStreams ((sent ++ sentTo b (observe maxClients s (.recv t (.msg msg) order)) ++
          ((s.sendAll forwarded targets).1.task b).queue).map ServerToClientMsg.content)
      ((sent ++ (s.task b).queue).map ServerToClientMsg.content ++
        Group.heard name g (opsOf s (.recv t (.msg msg) order))) := by
  have hevents : observe maxClients s (.recv t (.msg msg) order) = [.request t msg] := by
    simp [observe, sendEvent, hstep, hphase, Phase.writing, Server.sendAll_phase]
  have hqueue := Server.sendAll_queue ((s.sendAll_ok forwarded targets).mpr hopen) b
  have hserving : s.serving t = some sender := by simp [Server.serving, hphase]
  have hsends : ((reactClientMsg s.clients order sender msg).response t).deliveries =
      deliveries (targets.map fun target => (target, forwarded)) := by
    rw [hreact]
    rfl
  have hheard := hears_of_reaction howned hserved hb hserving horder hsends
  have hops : opsOf s (.recv t (.msg msg) order) = [request sender msg] := by
    simp [opsOf, hphase]
  rw [hevents, hqueue, hops, heard_request, hmembers, hheard, copies_of_targets]
  simpa [sentTo] using InStreams.refl _

/-- **What one step tells a member** is what the member hears of its operations. -/
theorem told_of_step (hstep : step maxClients s l = some s') (howned : Owned s)
    (hserved : EntriesServed s) (honly : OnlyMessages s) (hmembers : g.members = s.clients.keys)
    (hb : s.serving b = some name) (hb' : s'.serving b = some name)
    (sent : List ServerToClientMsg) :
    InStreams ((sent ++ sentTo b (observe maxClients s l) ++ (s'.task b).queue).map
        ServerToClientMsg.content)
      ((sent ++ (s.task b).queue).map ServerToClientMsg.content ++
        Group.heard name g (opsOf s l)) := by
  have hapart : ∀ {t : TaskId} {phase : Phase}, (s.task t).phase = phase → phase.serving = none →
      b ≠ t := by
    rintro t phase hphase hnone rfl
    simp [Server.serving, hphase, hnone] at hb
  have hstays : ∀ {t : TaskId}, s'.serving t = none → b ≠ t := by
    rintro t hleft rfl
    simp [hleft] at hb'
  cases moved_of_step hstep with
  | turnedAway | refused | reaped =>
      exact told_of_quiet hstep rfl (by simp) (by simp) (by simp) rfl sent
  | spawned _ hphase =>
      have hbt := hapart hphase rfl
      exact told_of_quiet hstep (by simp [hbt]) (by simp) (by simp) (by simp) rfl sent
  | refusalFailed | stopped =>
      simp only [Server.serving, Server.shutDown] at hb'
      split at hb'
      · next habsent => simp [habsent] at hb'
      · cases hb'
  | timedOut hphase =>
      have hbt := hapart hphase rfl
      exact told_of_quiet hstep (by simp [hbt]) (by simp) (by simp [Ne.symm hbt]) (by simp) rfl sent
  | @joined t got order hphase =>
      have hbt := hapart hphase rfl
      exact told_of_quiet hstep (by simp [hbt]) (by simp [Ne.symm hbt]) (by simp) (by simp)
        (by simp [opsOf, hphase, Group.heard]) sent
  | @unread t other got order hphase hgot =>
      have hbt := hstays (t := t) (by simp [Server.serving])
      refine told_of_quiet hstep (by simp [hbt]) (by simp [Ne.symm hbt]) (by simp) (by simp) ?_ sent
      rcases hgot with rfl | rfl <;> simp [opsOf, hphase, Group.heard]
  | @panicked t other order hphase =>
      have hbt := hstays (t := t) (by simp [Server.serving])
      exact told_of_quiet hstep (by simp [hbt]) (by simp [Ne.symm hbt]) (by simp) (by simp)
        (by simp [opsOf, hphase, Group.heard]) sent
  | answering hphase horder hreact =>
      exact told_of_answering hstep howned hserved honly hmembers hb hphase horder hreact sent
  | delivered hphase horder hreact hopen =>
      exact told_of_delivered hstep howned hserved hmembers hb hphase horder hreact hopen sent
  | @undelivered t sender msg order targets forwarded target hphase horder hreact hmem hclosed =>
      obtain ⟨key, _, hlookup⟩ := (mem_targets_iff horder hreact).mp hmem
      have hopen := Server.isOpen_iff.mpr ⟨key, hserved key target hlookup⟩
      simp [hopen] at hclosed
  | @dequeued t sender msg rest hphase hqueue =>
      -- what was first in the queue is now the last thing written
      have hevents : observe maxClients s (.dequeue t) = [.send t msg] := by
        simp [observe, sendEvent, hstep, Phase.writing]
      rw [hevents]
      by_cases hbt : b = t
      · subst hbt
        simpa [sentTo, opsOf, hphase, hqueue, Group.heard] using InStreams.refl _
      · simpa [sentTo, opsOf, hphase, hqueue, Group.heard, hbt, Ne.symm hbt] using InStreams.refl _
  | @orphaned t other hphase =>
      have hbt := hstays (t := t) (by simp [Server.serving])
      refine told_of_quiet hstep (by simp [hbt]) (by simp) (by simp) (by simp [Ne.symm hbt]) ?_ sent
      cases hqueue : (s.task t).queue <;> simp [opsOf, hphase, hqueue, Group.heard]
  | @notJoined t ok hphase =>
      have hbt := hstays (t := t) (by simp [Server.serving])
      refine told_of_quiet hstep (by simp [hbt]) (by simp) (by simp) (by simp) ?_ sent
      rcases hphase with ⟨reply, hphase⟩ | ⟨other, hphase, rfl⟩ <;>
        simp [opsOf, hphase, Group.heard]
  | @inserted t other hphase =>
      have hbt := hapart hphase rfl
      exact told_of_quiet hstep (by simp [hbt]) (by simp) (by simp) (by simp)
        (by simp [opsOf, hphase, enter, Group.heard]) sent
  | @answered t other reply hphase | @forwarded t other reply hphase =>
      refine told_of_quiet hstep ?_ (by simp) (by simp) (by simp)
        (by simp [opsOf, hphase, Group.heard]) sent
      by_cases hbt : b = t <;> simp [hbt]
  | @bailed t ok other reply bail hphase hends =>
      have hbt := hstays (t := t) (by simp [Server.serving])
      refine told_of_quiet hstep (by simp [hbt]) (by simp) (by simp) (by simp) ?_ sent
      rcases hends with rfl | rfl <;> simp only [opsOf, hphase] <;> simp [Group.heard]
  | @unforwarded t other msg hphase =>
      have hbt := hstays (t := t) (by simp [Server.serving])
      exact told_of_quiet hstep (by simp [hbt]) (by simp) (by simp) (by simp)
        (by simp [opsOf, hphase, Group.heard]) sent

/-! ## Runs -/

private theorem standing_welcoming {phase : Phase} (hstanding : phase.standing = .welcomed)
    (hstage : phase.stage ≤ 2) : ∃ name, phase = .welcoming name := by
  cases phase with
  | welcoming name => exact ⟨name, rfl⟩
  | receiving | replying | forwarding => simp [Phase.stage] at hstage
  | _ => cases hstanding

private theorem mem_of_sentTo {events : List Event} {msg : ServerToClientMsg}
    (h : msg ∈ sentTo b events) : Event.send b msg ∈ events := by
  simp only [sentTo, List.mem_filterMap] at h
  obtain ⟨event, hmem, hevent⟩ := h
  split at hevent
  · split at hevent <;> cases hevent
    next htb => exact htb ▸ hmem
  · cases hevent

/-- A client that is being welcomed was told nothing else. -/
theorem greeted_of_run (hrun : Run (Fires (step maxClients)) Server.init trace s) :
    ∀ name, (s.task b).phase = .welcoming name →
      sentTo b (history maxClients trace) = [.welcome] := by
  refine hrun.invariantTrace (I := fun trace s => ∀ name, (s.task b).phase = .welcoming name →
    sentTo b (history maxClients trace) = [.welcome]) (by simp [Server.init]) ?_
  intro trace s l s' hrun ih hstep name hphase
  -- `Welcome` is the first thing that `b` is told, and until its `insert` the last
  have hstanding : (s'.task b).phase.standing = .welcomed := by rw [hphase]; rfl
  have hstage : (s.task b).phase.stage ≤ 2 := by
    have := stage_le_of_moved (moved_of_step hstep) b
    rw [hphase] at this
    exact this
  rw [history_snoc, sentTo_append]
  cases tells_of_step hstep (onlyMessages_of_run hrun) b with
  | silent hsent _ hafter =>
      have hbefore : (s.task b).phase.standing = .welcomed := by
        rcases hafter with hafter | hafter
        · exact hafter.symm.trans hstanding
        · rw [hafter] at hstanding
          cases hstanding
      obtain ⟨joined, hjoined⟩ := standing_welcoming hbefore hstage
      rw [ih joined hjoined, hsent]
      rfl
  | refuses _ _ _ hafter =>
      rw [hafter] at hstanding
      cases hstanding
  | welcomes hsent _ hbefore =>
      have htold := told_of_run hrun b
      rw [hbefore] at htold
      rw [htold.1, hsent]
      rfl
  | replies _ hdemanded _ hbefore =>
      obtain ⟨joined, hjoined⟩ := standing_welcoming hbefore hstage
      simp only [demanded, hjoined] at hdemanded
      split at hdemanded
      · split at hdemanded <;> cases hdemanded
      · cases hdemanded
  | @forwards msg hsent _ hmessage _ _ =>
      have hmem : Event.send b msg ∈ observe maxClients s l := mem_of_sentTo (by simp [hsent])
      obtain ⟨hwriting, -⟩ := of_mem_send hstep hmem
      rw [hphase] at hwriting
      obtain rfl : .welcome = msg := Option.some.inj hwriting
      exact absurd hmessage (by simp [ServerToClientMsg.isMessage])

/-- A task enters its loop when the write of `Welcome` ends. -/
theorem entered_of_step (hstep : step maxClients s l = some s') (hb : s.serving b ≠ some name)
    (hb' : s'.serving b = some name) :
    (s.task b).phase = .welcoming name ∧ l = .wrote b true ∧ s' = s.insert b name := by
  cases effect_of_step hstep with
  | quiet _ hkept => exact absurd (hkept b ▸ hb') hb
  | @insert t joined hl hphase _ hkept =>
      rw [hkept] at hb'
      split at hb'
      · next hbt =>
          cases hb'
          subst hbt hl
          simp only [step, hphase, if_true, Option.some.injEq] at hstep
          exact ⟨hphase, rfl, hstep.symm⟩
      · exact absurd hb' hb
  | leave _ _ _ hkept | drop _ _ _ _ hkept =>
      rw [hkept] at hb'
      split at hb'
      · cases hb'
      · exact absurd hb' hb
  | shutDown _ _ hkept => simp [hkept] at hb'

theorem roomOf_of_run (hrun : Run (Fires (step maxClients)) Server.init trace s)
    (horderly : ∀ p ∈ trace, Orderly p.1 p.2) :
    (roomOf trace).members = s.clients.keys ∧ ∀ t name, s.serving t = some name →
      InStreams (told (history maxClients trace) s t) ((roomOf trace).inbox name) := by
  refine hrun.invariantTraceUnder (C := Orderly) (I := fun trace s =>
    (∀ p ∈ trace, Orderly p.1 p.2) → (roomOf trace).members = s.clients.keys ∧
      ∀ t name, s.serving t = some name →
        InStreams (told (history maxClients trace) s t) ((roomOf trace).inbox name))
    horderly ?_ ?_ horderly
  · intro _
    exact ⟨rfl, by simp [Server.serving, Server.init]⟩
  · intro trace s l s' hrun ih hlast hstep hall
    have hearlier : ∀ p ∈ trace, Orderly p.1 p.2 := fun p hp => hall p (by simp [hp])
    obtain ⟨hmembers, hstreams⟩ := ih hearlier
    have howned := owned_of_unraced hrun fun p hp => (hearlier p hp).1
    have hserved := entriesServed_of_kept hrun fun p hp => (hearlier p hp).2
    have hmoved := moved_of_step hstep
    rw [roomOf_snoc]
    refine ⟨members_of_moved howned hserved hmembers hmoved, fun t name hserving' => ?_⟩
    -- who was in its loop before stays a member, and is told what it hears
    by_cases hserving : s.serving t = some name
    · have hmem : name ∈ (roomOf trace).members := by
        rw [hmembers, Finmap.mem_keys]
        exact Finmap.mem_of_lookup_eq_some (howned t name hserving)
      have hkeeps := keeps_of_moved howned hlast.1 hmoved hserving hserving'
      rw [told, history_snoc, sentTo_append, (Group.after_of_keeps hkeeps hmem).2]
      have htold := told_of_step hstep howned hserved (onlyMessages_of_run hrun) hmembers
        hserving hserving' (sentTo t (history maxClients trace))
      exact htold.trans ((hstreams t name hserving).append (.refl _))
    · -- the client enters its loop in this step, and was greeted before
      obtain ⟨hphase, rfl, rfl⟩ := entered_of_step hstep hserving hserving'
      have hops : opsOf s (.wrote t true) = [enter name] := by simp [opsOf, hphase]
      have hsilent : sentTo t (observe maxClients s (.wrote t true)) = [] := by
        simp [observe, hphase, sentTo]
      rw [told, history_snoc, sentTo_append, greeted_of_run hrun name hphase, hsilent, hops]
      simpa [enter, Group.apply, ServerToClientMsg.content] using InStreams.refl _

/-- **The server is a chat room.**  In every run in which no insert replaces an entry and no
handler is dropped, the members of the room that the run makes are the names in the map, and
every client in its loop is told what is in the inbox of its member: everything that it was
answered, in this order, and everything that other clients said, in this order, of which the
last messages may still be queued. -/
theorem told_in_streams (hrun : Run (Fires (step maxClients)) Server.init trace s)
    (horderly : ∀ p ∈ trace, Orderly p.1 p.2) :
    (roomOf trace).members = s.clients.keys ∧ ∀ t name, s.serving t = some name →
      InStreams (told (history maxClients trace) s t) ((roomOf trace).inbox name) :=
  roomOf_of_run hrun horderly

/-- A pong that overtakes a broadcast. -/
theorem told_in_streams_overtaken :
    ∃ trace s, Run (Fires (step 2)) Server.init trace s ∧
      told (history 2 trace) s 1 = [.welcome, .pong, .message "a" "hi"] ∧
      (roomOf trace).inbox "b" = [.welcome, .message "a" "hi", .pong] ∧
      InStreams (told (history 2 trace) s 1) ((roomOf trace).inbox "b") := by
  have start : Run (Fires (step 2)) Server.init [] Server.init := .nil
  have joined := (((((start.fire (.accept 0) rfl).fire (.recv 0 (.msg (.join "a")) []) rfl).fire
    (.wrote 0 true) rfl).fire (.accept 1) rfl).fire (.recv 1 (.msg (.join "b")) []) rfl).fire
    (.wrote 1 true) rfl
  have hrun := (joined.fire (.recv 0 (.msg (.broadcast "hi")) [("a", 0), ("b", 1)]) rfl).fire
    (.recv 1 (.msg .ping) [("a", 0), ("b", 1)]) rfl
  refine ⟨_, _, hrun, rfl, rfl, (told_in_streams hrun ?_).2 1 "b" rfl⟩
  intro p hp
  simp only [List.nil_append, List.cons_append, List.mem_cons, List.not_mem_nil, or_false] at hp
  rcases hp with rfl | rfl | rfl | rfl | rfl | rfl | rfl | rfl <;>
    refine ⟨?_, fun t hdrops => by cases hdrops⟩
  all_goals first
    | trivial
    | rintro name hphase
      cases hphase
      decide

/-! ## One order for all -/

/-- The broadcasts that clients other than `t` and `u` make in the steps of a trace. -/
def broadcastsOfOthers (t u : TaskId) (trace : List (Server × Label)) : List Content :=
  trace.flatMap fun p =>
    match p.2 with
    | .recv v (.msg (.broadcast message)) _ =>
        match (p.1.task v).phase with
        | .receiving sender => if v = t ∨ v = u then [] else [.message sender message]
        | _ => []
    | _ => []

private theorem passedOn_of_broadcasts {t u : TaskId} :
    ∀ content ∈ broadcastsOfOthers t u trace, content.passedOn = true := by
  intro content hcontent
  obtain ⟨p, -, hp⟩ := List.mem_flatMap.mp hcontent
  split at hp
  · split at hp
    · split at hp
      · cases hp
      · obtain rfl := List.mem_singleton.mp hp
        rfl
    · cases hp
  · cases hp

/-- A client that is in its loop before and after steps of a run was so all the time, under one
name. -/
theorem serving_between {s₀ : Server} {after : List (Server × Label)} {other : String}
    (hafter : Run (Fires (step maxClients)) s₀ after s) (hstep : step maxClients s l = some s')
    (hb : s₀.serving b = some other) (hb' : s'.serving b = some name) :
    s.serving b = some name := by
  have hstage : 3 ≤ (s.task b).phase.stage := by
    refine hafter.invariant (I := fun s => 3 ≤ (s.task b).phase.stage) ?_ ?_
    · cases hphase : (s₀.task b).phase <;> simp_all [Server.serving, Phase.stage]
    · exact fun s l s' h hstep => h.trans (stage_le_of_moved (moved_of_step hstep) b)
  by_contra hne
  have hentered := (entered_of_step hstep hne hb').1
  rw [hentered] at hstage
  simp [Phase.stage] at hstage

/-- A broadcast of a third client is heard alike. -/
theorem broadcasts_sublist {t u : TaskId} {first second : String} (howned : Owned s)
    (ht : s.serving t = some first) (hu : s.serving u = some second) :
    (broadcastsOfOthers t u [(s, l)]).Sublist (Group.heardAlike first second g (opsOf s l)) := by
  unfold broadcastsOfOthers
  simp only [List.flatMap_cons, List.flatMap_nil, List.append_nil]
  split
  · next v message order =>
      split
      · next sender hphase =>
          have hops : opsOf s (.recv v (.msg (.broadcast message)) order) =
              [request sender (.broadcast message)] := by simp [opsOf, hphase]
          split
          · exact List.nil_sublist _
          · next hothers =>
              have hsender : s.serving v = some sender := by simp [Server.serving, hphase]
              have hapart : ∀ {w other}, s.serving w = some other → v ≠ w → other ≠ sender := by
                rintro w other hw hne rfl
                exact hne (Option.some.inj ((howned v other hsender).symm.trans
                  (howned w other hw)))
              rw [not_or] at hothers
              rw [hops]
              simp [request, Group.heardAlike, hears, hapart ht hothers.1, hapart hu hothers.2]
      · exact List.nil_sublist _
  · exact List.nil_sublist _

/-- Two clients that stay in their loops hear alike what third clients broadcast. -/
theorem heardAlike_of_run {s₀ : Server} {before after : List (Server × Label)} {t u : TaskId}
    {first second : String} (hbefore : Run (Fires (step maxClients)) Server.init before s₀)
    (hafter : Run (Fires (step maxClients)) s₀ after s) (ht₀ : s₀.serving t = some first)
    (hu₀ : s₀.serving u = some second) :
    (∀ p ∈ before ++ after, Orderly p.1 p.2) → s.serving t = some first →
      s.serving u = some second →
      (∀ op ∈ after.flatMap fun p => opsOf p.1 p.2,
        Group.Keeps first op ∧ Group.Keeps second op) ∧
      (broadcastsOfOthers t u after).Sublist
        (Group.heardAlike first second g (after.flatMap fun p => opsOf p.1 p.2)) := by
  refine hafter.invariantTrace (I := fun after s => (∀ p ∈ before ++ after, Orderly p.1 p.2) →
    s.serving t = some first → s.serving u = some second →
    (∀ op ∈ after.flatMap fun p => opsOf p.1 p.2,
      Group.Keeps first op ∧ Group.Keeps second op) ∧
    (broadcastsOfOthers t u after).Sublist
      (Group.heardAlike first second g (after.flatMap fun p => opsOf p.1 p.2))) ?_ ?_
  · intro _ _ _
    exact ⟨by simp, List.nil_sublist _⟩
  · intro after s l s' hafter ih hstep horderly ht' hu'
    have ht := serving_between hafter hstep ht₀ ht'
    have hu := serving_between hafter hstep hu₀ hu'
    have hearlier : ∀ p ∈ before ++ after, Orderly p.1 p.2 := fun p hp =>
      horderly p (by rw [← List.append_assoc]; exact List.mem_append_left _ hp)
    obtain ⟨hkeeps, hsublist⟩ := ih hearlier ht hu
    have howned := owned_of_unraced (hbefore.append hafter) fun p hp => (hearlier p hp).1
    have hunraced : Unraced s l := (horderly (s, l) (by simp)).1
    have hmoved := moved_of_step hstep
    rw [List.flatMap_append, List.flatMap_singleton]
    constructor
    · intro op hop
      rcases List.mem_append.mp hop with hop | hop
      · exact hkeeps op hop
      · exact ⟨keeps_of_moved howned hunraced hmoved ht ht' op hop,
          keeps_of_moved howned hunraced hmoved hu hu' op hop⟩
    · rw [broadcastsOfOthers, List.flatMap_append, Group.heardAlike_append]
      exact hsublist.append (broadcasts_sublist howned ht hu)

/-- **One order for all.**  Two clients that stay in their loops from one state of a run to a
later one are told the broadcasts that third clients make in between, and they are told them in
the same order: the order in which the server processed them. -/
theorem broadcasts_in_one_order {s₀ : Server} {before after : List (Server × Label)}
    {t u : TaskId} {first second : String}
    (hbefore : Run (Fires (step maxClients)) Server.init before s₀)
    (hafter : Run (Fires (step maxClients)) s₀ after s)
    (horderly : ∀ p ∈ before ++ after, Orderly p.1 p.2)
    (ht₀ : s₀.serving t = some first) (hu₀ : s₀.serving u = some second)
    (ht : s.serving t = some first) (hu : s.serving u = some second) :
    ∃ news news',
      (told (history maxClients (before ++ after)) s t).filter Content.passedOn =
        (told (history maxClients before) s₀ t).filter Content.passedOn ++ news ∧
      (told (history maxClients (before ++ after)) s u).filter Content.passedOn =
        (told (history maxClients before) s₀ u).filter Content.passedOn ++ news' ∧
      (broadcastsOfOthers t u after).Sublist news ∧
      (broadcastsOfOthers t u after).Sublist news' := by
  obtain ⟨hmembers₀, hstreams₀⟩ := roomOf_of_run hbefore fun p hp => horderly p (by simp [hp])
  obtain ⟨-, hstreams⟩ := roomOf_of_run (hbefore.append hafter) horderly
  have howned := owned_of_unraced hbefore fun p hp => (horderly p (by simp [hp])).1
  have hmember : ∀ {v name}, s₀.serving v = some name → name ∈ (roomOf before).members := by
    intro v name hv
    rw [hmembers₀, Finmap.mem_keys]
    exact Finmap.mem_of_lookup_eq_some (howned v name hv)
  obtain ⟨hkeeps, hsublist⟩ :=
    heardAlike_of_run (g := roomOf before) hbefore hafter ht₀ hu₀ horderly ht hu
  obtain ⟨heard, heard', hheard, hheard', halike, halike'⟩ :=
    Group.members_hear_alike hkeeps (hmember ht₀) (hmember hu₀)
  have hroom : roomOf (before ++ after) =
      (roomOf before).after (after.flatMap fun p => opsOf p.1 p.2) := by simp [roomOf]
  have hpassed : (broadcastsOfOthers t u after).filter Content.passedOn =
      broadcastsOfOthers t u after := List.filter_eq_self.mpr passedOn_of_broadcasts
  refine ⟨heard.filter Content.passedOn, heard'.filter Content.passedOn, ?_, ?_, ?_, ?_⟩
  · rw [(hstreams t first ht).messages, (hstreams₀ t first ht₀).messages, hroom, hheard,
      List.filter_append]
  · rw [(hstreams u second hu).messages, (hstreams₀ u second hu₀).messages, hroom, hheard',
      List.filter_append]
  · rw [← hpassed]
    exact (hsublist.trans halike).filter _
  · rw [← hpassed]
    exact (hsublist.trans halike').filter _

/-- Two broadcasts, of which one client has taken the first out of its queue. -/
theorem broadcasts_in_one_order_two :
    ∃ before after s₀ s news news', Run (Fires (step 3)) Server.init before s₀ ∧
      Run (Fires (step 3)) s₀ after s ∧
      (told (history 3 (before ++ after)) s 0).filter Content.passedOn =
        (told (history 3 before) s₀ 0).filter Content.passedOn ++ news ∧
      (told (history 3 (before ++ after)) s 1).filter Content.passedOn =
        (told (history 3 before) s₀ 1).filter Content.passedOn ++ news' ∧
      [.message "c" "x", .message "c" "y"].Sublist news ∧
      [.message "c" "x", .message "c" "y"].Sublist news' := by
  have start : Run (Fires (step 3)) Server.init [] Server.init := .nil
  have hbefore := ((((((((start.fire (.accept 0) rfl).fire (.recv 0 (.msg (.join "a")) []) rfl).fire
    (.wrote 0 true) rfl).fire (.accept 1) rfl).fire (.recv 1 (.msg (.join "b")) []) rfl).fire
    (.wrote 1 true) rfl).fire (.accept 2) rfl).fire (.recv 2 (.msg (.join "c")) []) rfl).fire
    (.wrote 2 true) rfl
  have hence : ∀ {trace s}, Run (Fires (step 3)) Server.init trace s →
      Run (Fires (step 3)) s [] s := fun _ => .nil
  have hafter := (((hence hbefore).fire
    (.recv 2 (.msg (.broadcast "x")) [("a", 0), ("b", 1), ("c", 2)]) rfl).fire
    (.dequeue 1) rfl).fire (.recv 2 (.msg (.broadcast "y")) [("b", 1), ("c", 2), ("a", 0)]) rfl
  have horder := fun horderly =>
    broadcasts_in_one_order (t := 0) (u := 1) hbefore hafter horderly rfl rfl rfl rfl
  obtain ⟨news, news', h⟩ := horder <| by
    intro p hp
    simp only [List.nil_append, List.cons_append, List.mem_cons, List.not_mem_nil, or_false] at hp
    rcases hp with rfl | rfl | rfl | rfl | rfl | rfl | rfl | rfl | rfl | rfl | rfl | rfl <;>
      refine ⟨?_, fun t hdrops => by cases hdrops⟩
    all_goals first
      | trivial
      | rintro name hphase
        cases hphase
        decide
  exact ⟨_, _, _, _, news, news', hbefore, hafter, h⟩

end RustCourse.Lesson10
