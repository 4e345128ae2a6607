import RustCourse.Chat.Protocol
import RustCourse.Lesson10.Delivery

/-!
# What one connection is told

Everything a handler passes to its `writer.send` comes from four places: the errors and
the `Welcome` of `join_client`, the replies of `react_client_msg`, and the messages it
takes from its queue.  `transcript_of_run` puts them in order, for one connection in any
run: either at most one error and nothing else, or `Welcome` and then the replies to the
requests processed so far, one by one, with messages from other clients anywhere between
them.

The invariant follows the `Standing` of the connection, which is all of the phase that the
order depends on: `Tells` says what a step can add to the transcript, and how the standing
changes with it.
-/

namespace RustCourse.Lesson10

open Chat Transition

/-! ## The standing of a connection -/

/-- What has become of a connection, as far as its client is told. -/
inductive Standing
  | unheard
  | refused
  | welcomed
  | closed
  deriving DecidableEq

/-- The standing in a phase. -/
def Phase.standing : Phase → Standing
  | .absent => .unheard
  | .joining => .unheard
  | .refusing _ => .refused
  | .welcoming _ => .welcomed
  | .receiving _ => .welcomed
  | .replying _ _ _ => .welcomed
  | .forwarding _ _ => .welcomed
  | .ended => .closed

/-- The reply that the step demands for the client of task `b`: it processes a request of
this client. -/
def demanded (b : TaskId) (p : Server × Label) : Option Content :=
  match p.2 with
  | .recv t (.msg msg) _ =>
      if t = b then
        match (p.1.task b).phase with
        | .receiving name => replyTo p.1.clients name msg
        | _ => none
      else none
  | _ => none

/-- Task `b` reads `Join` in the loop of `handle_client`. -/
def SecondJoin (b : TaskId) (p : Server × Label) : Prop :=
  ∃ name other order,
    (p.1.task b).phase = .receiving name ∧ p.2 = .recv b (.msg (.join other)) order

variable {maxClients : ℕ} {trace : List (Server × Label)} {s s' : Server} {l : Label}
  {b : TaskId}

/-! ## Replies -/

section React

variable {clients : HashMap String TaskId} {order : List (String × TaskId)} {name : String}
  {msg : ClientToServerMsg}

/-- What `react_client_msg` answers is the reply that is demanded. -/
theorem replyTo_of_reply {reply : ServerToClientMsg} {bail : Bool}
    (horder : clients.Enumerates order)
    (h : reactClientMsg clients order name msg = .reply reply bail) :
    replyTo clients name msg = some reply.content ∧ reply.isMessage = false := by
  cases msg with
  | join | ping =>
      cases h
      exact ⟨rfl, rfl⟩
  | listUsers =>
      cases h
      rw [content_userList horder]
      exact ⟨rfl, rfl⟩
  | broadcast => simp [reactClientMsg] at h
  | sendDM recipient message =>
      simp only [reactClientMsg] at h
      split at h
      · next hself =>
          cases h
          exact ⟨if_pos hself, rfl⟩
      · next hother =>
          split at h
          · cases h
          · next hnone =>
              cases h
              refine ⟨?_, rfl⟩
              rw [replyTo, if_neg hother, if_neg (Finmap.lookup_eq_none.mp hnone)]
              rfl

/-- No reply is demanded for a request that is forwarded. -/
theorem replyTo_of_sends {targets : List TaskId} {forwarded : ServerToClientMsg}
    (h : reactClientMsg clients order name msg = .sends targets forwarded) :
    replyTo clients name msg = none ∧ forwarded.isMessage = true := by
  cases msg with
  | join | ping | listUsers => simp [reactClientMsg] at h
  | broadcast =>
      cases h
      exact ⟨rfl, rfl⟩
  | sendDM recipient message =>
      simp only [reactClientMsg] at h
      split at h
      · cases h
      · next hother =>
          split at h
          · next channel hlookup =>
              cases h
              have hmem : recipient ∈ clients := Finmap.mem_of_lookup_eq_some hlookup
              exact ⟨by rw [replyTo, if_neg hother, if_pos hmem], rfl⟩
          · cases h

end React

/-! ## Queues hold messages -/

/-- Only messages from clients are queued. -/
def OnlyMessages (s : Server) : Prop :=
  ∀ t, ∀ msg ∈ (s.task t).queue, msg.isMessage = true

theorem OnlyMessages.setTask {task : Task} {t : TaskId} (h : OnlyMessages s)
    (htask : ∀ msg ∈ task.queue, msg.isMessage = true) : OnlyMessages (s.setTask t task) := by
  intro u msg hmsg
  by_cases hu : u = t
  · subst hu
    exact htask msg (by simpa using hmsg)
  · exact h u msg (by simpa [hu] using hmsg)

theorem OnlyMessages.sendAll {msg : ServerToClientMsg} {targets : List TaskId}
    (h : OnlyMessages s) (hmsg : msg.isMessage = true) :
    OnlyMessages (s.sendAll msg targets).1 := by
  induction targets generalizing s with
  | nil => exact h
  | cons target rest ih =>
      unfold Server.sendAll
      split
      · apply ih
        apply h.setTask
        intro other hother
        rcases List.mem_append.mp hother with hother | hother
        · exact h target other hother
        · rw [List.mem_singleton.mp hother, hmsg]
      · exact h

theorem OnlyMessages.of_moved (h : OnlyMessages s) (hmoved : Moved s l s') : OnlyMessages s' := by
  cases hmoved with
  | turnedAway | refused | reaped => exact h
  | refusalFailed | stopped =>
      intro t msg hmsg
      simp only [Server.shutDown] at hmsg
      split at hmsg
      · exact h t msg hmsg
      · simp at hmsg
  | @spawned t | @timedOut t | @joined t | @answering t | @answered t | @forwarded t =>
      exact h.setTask (h t)
  | delivered _ _ hreact => exact h.sendAll (replyTo_of_sends hreact).2
  | undelivered _ _ hreact =>
      exact (h.sendAll (replyTo_of_sends hreact).2).setTask (by simp)
  | @dequeued t _ msg rest _ hqueue =>
      apply h.setTask
      intro other hother
      exact h t other (by rw [hqueue]; exact List.mem_cons_of_mem _ hother)
  | unread | panicked | orphaned | notJoined | inserted | bailed | unforwarded =>
      exact h.setTask (by simp)

theorem onlyMessages_of_run (hrun : Run (Fires (step maxClients)) Server.init trace s) :
    OnlyMessages s :=
  hrun.invariant (by simp [OnlyMessages, Server.init]) fun _ _ _ h hstep =>
    h.of_moved (moved_of_step hstep)

/-! ## One step -/

/-- **What a step tells a connection**: which messages it passes to the writer of task `b`,
which reply it demands, and how the standing of the connection changes. -/
inductive Tells (s : Server) (l : Label) (s' : Server) (b : TaskId)
    (sent : List ServerToClientMsg) : Prop
  | silent : sent = [] → demanded b (s, l) = none →
      (s'.task b).phase.standing = (s.task b).phase.standing ∨
        (s'.task b).phase.standing = .closed → Tells s l s' b sent
  | refuses {text} : sent = [.error text] → demanded b (s, l) = none →
      (s.task b).phase.standing = .unheard → (s'.task b).phase.standing = .refused →
      Tells s l s' b sent
  | welcomes : sent = [.welcome] → demanded b (s, l) = none →
      (s.task b).phase.standing = .unheard → (s'.task b).phase.standing = .welcomed →
      Tells s l s' b sent
  | replies {reply} : sent = [reply] → demanded b (s, l) = some reply.content →
      reply.isMessage = false → (s.task b).phase.standing = .welcomed →
      (s'.task b).phase.standing = .welcomed → Tells s l s' b sent
  | forwards {msg} : sent = [msg] → demanded b (s, l) = none → msg.isMessage = true →
      (s.task b).phase.standing = .welcomed → (s'.task b).phase.standing = .welcomed →
      Tells s l s' b sent

/-- A step that passes nothing to the writer of `b`, and processes no request of it. -/
theorem Tells.of_quiet (hstep : step maxClients s l = some s')
    (hrecv : ∀ got order, l ≠ .recv b got order) (htimeout : l ≠ .timeout b)
    (hdequeue : l ≠ .dequeue b)
    (hstanding : (s'.task b).phase.standing = (s.task b).phase.standing ∨
      (s'.task b).phase.standing = .closed) :
    Tells s l s' b (sentTo b (observe maxClients s l)) := by
  have hsent : sentTo b (observe maxClients s l) = [] := by
    apply sentTo_eq_nil
    intro msg hmem
    rcases (of_mem_send hstep hmem).2 with ⟨got, order, hl⟩ | hl | hl
    · exact hrecv got order hl
    · exact htimeout hl
    · exact hdequeue hl
  refine .silent hsent ?_ hstanding
  cases l with
  | recv t got order =>
      have hne : t ≠ b := by
        intro heq
        subst heq
        exact hrecv got order rfl
      cases got <;> simp [demanded, hne]
  | _ => rfl

/-- Another task moves. -/
theorem Tells.of_other {t : TaskId} (hstep : step maxClients s l = some s') (hne : b ≠ t)
    (hl : (∃ got order, l = .recv t got order) ∨ l = .timeout t ∨ l = .dequeue t ∨
      ∃ ok, l = .wrote t ok)
    (hphase : (s'.task b).phase = (s.task b).phase) :
    Tells s l s' b (sentTo b (observe maxClients s l)) := by
  apply Tells.of_quiet hstep
  · rintro got order rfl
    exact hne (by simpa using hl)
  · rintro rfl
    exact hne (by simpa using hl)
  · rintro rfl
    exact hne (by simpa using hl)
  · exact .inl (congrArg Phase.standing hphase)

/-- What is passed to the writer of `b` when it is resumed is what it is writing then. -/
theorem sentTo_sendEvent (hstep : step maxClients s l = some s') :
    sentTo b (sendEvent maxClients s l b) = (s'.task b).phase.writing.toList := by
  cases hwriting : (s'.task b).phase.writing <;> simp [sendEvent, hstep, hwriting, sentTo]

theorem sentTo_resumed (hstep : step maxClients s l = some s')
    (hevents : observe maxClients s l = sendEvent maxClients s l b) :
    sentTo b (observe maxClients s l) = (s'.task b).phase.writing.toList := by
  rw [hevents, sentTo_sendEvent hstep]

theorem joinClient_cases (clients : HashMap String TaskId) (got : Received) :
    (∃ text, joinClient clients got = .refusing (.error text)) ∨
      (∃ name, joinClient clients got = .welcoming name) ∨ joinClient clients got = .ended := by
  unfold joinClient
  split <;> (try split) <;> simp

/-- What `join_client` tells its client. -/
theorem Tells.of_joined {got : Received} {order : List (String × TaskId)}
    (hstep : step maxClients s (.recv b got order) =
      some (s.setPhase b (joinClient s.clients got)))
    (hphase : (s.task b).phase = .joining) :
    Tells s (.recv b got order) (s.setPhase b (joinClient s.clients got)) b
      (sentTo b (observe maxClients s (.recv b got order))) := by
  have hunheard : (s.task b).phase.standing = .unheard := by rw [hphase]; rfl
  have hsilent : demanded b (s, .recv b got order) = none := by
    cases got <;> simp [demanded, hphase]
  have hsent : sentTo b (observe maxClients s (.recv b got order)) =
      (joinClient s.clients got).writing.toList := by
    have hwriting := sentTo_sendEvent (b := b) hstep
    simp only [Server.setPhase_task, if_true] at hwriting
    rw [← hwriting]
    cases got with
    | msg msg => cases msg <;> simp [observe, hphase, sentTo]
    | _ => rfl
  rw [hsent]
  rcases joinClient_cases s.clients got with ⟨text, hjoin⟩ | ⟨name, hjoin⟩ | hjoin <;> rw [hjoin]
  · exact .refuses rfl hsilent hunheard (by simp [Phase.standing])
  · exact .welcomes rfl hsilent hunheard (by simp [Phase.standing])
  · exact .silent rfl hsilent (.inr (by simp [Phase.standing]))

/-- A request is processed: the reply to it is the reply that is demanded. -/
theorem Tells.of_answering {name : String} {msg : ClientToServerMsg}
    {order : List (String × TaskId)} {reply : ServerToClientMsg} {bail : Bool}
    (hstep : step maxClients s (.recv b (.msg msg) order) =
      some (s.setPhase b (.replying name reply bail)))
    (hphase : (s.task b).phase = .receiving name) (horder : s.clients.Enumerates order)
    (hreact : reactClientMsg s.clients order name msg = .reply reply bail) :
    Tells s (.recv b (.msg msg) order) (s.setPhase b (.replying name reply bail)) b
      (sentTo b (observe maxClients s (.recv b (.msg msg) order))) := by
  obtain ⟨hdemanded, hmessage⟩ := replyTo_of_reply horder hreact
  have hevents : observe maxClients s (.recv b (.msg msg) order) =
      [.request b msg, .send b reply] := by
    simp [observe, sendEvent, hstep, hphase, Phase.writing]
  refine .replies (by simp [hevents, sentTo]) ?_ hmessage ?_ ?_
  · simpa [demanded, hphase] using hdemanded
  · rw [hphase]
    rfl
  · simp [Phase.standing]

/-- A request is processed that demands no reply. -/
theorem Tells.of_sends {name : String} {msg : ClientToServerMsg}
    {order : List (String × TaskId)} {targets : List TaskId} {forwarded : ServerToClientMsg}
    (hstep : step maxClients s (.recv b (.msg msg) order) = some s')
    (hphase : (s.task b).phase = .receiving name)
    (hreact : reactClientMsg s.clients order name msg = .sends targets forwarded)
    (hphase' : (s'.task b).phase = .receiving name ∨ (s'.task b).phase = .ended) :
    Tells s (.recv b (.msg msg) order) s' b
      (sentTo b (observe maxClients s (.recv b (.msg msg) order))) := by
  have hwriting : (s'.task b).phase.writing = none := by
    rcases hphase' with hphase' | hphase' <;> rw [hphase'] <;> rfl
  have hsent : sentTo b (observe maxClients s (.recv b (.msg msg) order)) = [] := by
    simp [observe, sendEvent, hstep, hphase, hwriting, sentTo]
  refine .silent hsent ?_ ?_
  · simpa [demanded, hphase] using (replyTo_of_sends hreact).1
  · rcases hphase' with hphase' | hphase' <;> rw [hphase']
    · exact .inl (by rw [hphase])
    · exact .inr rfl

/-- **Every step** tells the connection of task `b` one of these things. -/
theorem tells_of_step (hstep : step maxClients s l = some s') (honly : OnlyMessages s)
    (b : TaskId) : Tells s l s' b (sentTo b (observe maxClients s l)) := by
  cases moved_of_step hstep with
  -- `run_server` writes to connections that are not served
  | turnedAway | refused | reaped => exact .of_quiet hstep (by simp) (by simp) (by simp) (.inl rfl)
  | refusalFailed | stopped =>
      refine .of_quiet hstep (by simp) (by simp) (by simp) ?_
      simp only [Server.shutDown]
      split
      · exact .inl rfl
      · exact .inr rfl
  | @spawned t _ hphase =>
      refine .of_quiet hstep (by simp) (by simp) (by simp) (.inl ?_)
      by_cases hbt : b = t
      · simp [hbt, hphase, Phase.standing]
      · simp [hbt]
  -- a task is resumed: it writes to its own client, and is it `b`?
  | @timedOut t hphase =>
      by_cases hbt : b = t
      · subst hbt
        have hsent := sentTo_resumed (b := b) hstep rfl
        exact .refuses (by simpa [Phase.writing] using hsent) rfl (by simp [hphase, Phase.standing])
          (by simp [Phase.standing])
      · exact .of_other hstep hbt (.inr (.inl rfl)) (by simp [hbt])
  | @joined t got order hphase =>
      by_cases hbt : b = t
      · subst hbt
        exact .of_joined hstep hphase
      · exact .of_other hstep hbt (.inl ⟨got, order, rfl⟩) (by simp [hbt])
  | @unread t name got order hphase hgot =>
      by_cases hbt : b = t
      · subst hbt
        rcases hgot with rfl | rfl <;>
          exact .silent (by rw [sentTo_resumed hstep rfl]; simp [Phase.writing]) rfl
            (.inr (by simp [Phase.standing]))
      · exact .of_other hstep hbt (.inl ⟨got, order, rfl⟩) (by simp [hbt])
  | @panicked t name order hphase =>
      by_cases hbt : b = t
      · subst hbt
        have hsent := sentTo_resumed (b := b) hstep rfl
        exact .silent (by simpa [Phase.writing] using hsent) rfl (.inr (by simp [Phase.standing]))
      · exact .of_other hstep hbt (.inl ⟨.panics, order, rfl⟩) (by simp [hbt])
  | @answering t name msg order reply bail hphase horder hreact =>
      by_cases hbt : b = t
      · subst hbt
        exact .of_answering hstep hphase horder hreact
      · exact .of_other hstep hbt (.inl ⟨.msg msg, order, rfl⟩) (by simp [hbt])
  -- what goes to others goes into their queues
  | @delivered t name msg order targets forwarded hphase horder hreact hopen =>
      have hkept : ((s.sendAll forwarded targets).1.task b).phase = (s.task b).phase :=
        Server.sendAll_phase targets b
      by_cases hbt : b = t
      · subst hbt
        exact .of_sends hstep hphase hreact (.inl (hkept.trans hphase))
      · exact .of_other hstep hbt (.inl ⟨.msg msg, order, rfl⟩) hkept
  | @undelivered t name msg order targets forwarded target hphase horder hreact hmem hclosed =>
      by_cases hbt : b = t
      · subst hbt
        exact .of_sends hstep hphase hreact (.inr (by simp))
      · refine .of_other hstep hbt (.inl ⟨.msg msg, order, rfl⟩) ?_
        simpa [hbt] using Server.sendAll_phase targets b
  | @dequeued t name msg rest hphase hqueue =>
      by_cases hbt : b = t
      · subst hbt
        have hsent := sentTo_resumed (b := b) hstep rfl
        exact .forwards (by simpa [Phase.writing] using hsent) rfl
          (honly b msg (by simp [hqueue])) (by simp [hphase, Phase.standing])
          (by simp [Phase.standing])
      · exact .of_other hstep hbt (.inr (.inr (.inl rfl))) (by simp [hbt])
  | @orphaned t name hphase hsender =>
      by_cases hbt : b = t
      · subst hbt
        have hsent := sentTo_resumed (b := b) hstep rfl
        exact .silent (by simpa [Phase.writing] using hsent) rfl (.inr (by simp [Phase.standing]))
      · exact .of_other hstep hbt (.inr (.inr (.inl rfl))) (by simp [hbt])
  -- the connection is over, so nothing is written to it
  | @notJoined t ok | @bailed t ok =>
      refine .of_quiet hstep (by simp) (by simp) (by simp) ?_
      by_cases hbt : b = t
      · exact .inr (by simp [hbt, Phase.standing])
      · exact .inl (by simp [hbt])
  | @unforwarded t =>
      refine .of_quiet hstep (by simp) (by simp) (by simp) ?_
      by_cases hbt : b = t
      · exact .inr (by simp [hbt, Phase.standing])
      · exact .inl (by simp [hbt])
  | @inserted t name hphase | @answered t name _ hphase | @forwarded t name _ hphase =>
      refine .of_quiet hstep (by simp) (by simp) (by simp) (.inl ?_)
      by_cases hbt : b = t
      · subst hbt
        simp [hphase, Phase.standing]
      · simp [hbt]

/-! ## Runs -/

/-- The transcript of a connection that was not welcomed: at most one error. -/
def Rejected (sent : List ServerToClientMsg) : Prop :=
  ∃ text, sent <+: [.error text]

/-- The transcript of a connection that was welcomed: apart from messages, `Welcome` is
followed by these replies. -/
def Answered (sent : List ServerToClientMsg) (replies : List Content) : Prop :=
  ∃ rest, sent = .welcome :: rest ∧
    (rest.filter fun msg => !msg.isMessage).map ServerToClientMsg.content = replies

theorem Answered.snoc {sent : List ServerToClientMsg} {replies : List Content}
    (h : Answered sent replies) {reply : ServerToClientMsg} (hreply : reply.isMessage = false) :
    Answered (sent ++ [reply]) (replies ++ [reply.content]) := by
  obtain ⟨rest, rfl, rfl⟩ := h
  exact ⟨rest ++ [reply], rfl, by simp [hreply]⟩

theorem Answered.snoc_message {sent : List ServerToClientMsg} {replies : List Content}
    (h : Answered sent replies) {msg : ServerToClientMsg} (hmsg : msg.isMessage = true) :
    Answered (sent ++ [msg]) replies := by
  obtain ⟨rest, rfl, rfl⟩ := h
  exact ⟨rest ++ [msg], rfl, by simp [hmsg]⟩

/-- What a connection was told, and which replies were demanded, by its standing. -/
def Told (sent : List ServerToClientMsg) (replies : List Content) : Standing → Prop
  | .unheard => sent = [] ∧ replies = []
  | .refused => Rejected sent ∧ replies = []
  | .welcomed => Answered sent replies
  | .closed => Rejected sent ∧ replies = [] ∨ Answered sent replies

theorem Told.closed {sent : List ServerToClientMsg} {replies : List Content} {standing : Standing}
    (h : Told sent replies standing) : Told sent replies .closed := by
  cases standing with
  | unheard =>
      obtain ⟨rfl, rfl⟩ := h
      exact .inl ⟨⟨"", List.nil_prefix⟩, rfl⟩
  | refused => exact .inl h
  | welcomed => exact .inr h
  | closed => exact h

/-- One step keeps the order. -/
theorem Told.step {sent new : List ServerToClientMsg} {replies : List Content}
    (h : Told sent replies (s.task b).phase.standing) (htells : Tells s l s' b new) :
    Told (sent ++ new) (replies ++ (demanded b (s, l)).toList) (s'.task b).phase.standing := by
  cases htells with
  | silent hnew hdemanded hstanding =>
      rw [hnew, hdemanded, List.append_nil, Option.toList_none, List.append_nil]
      rcases hstanding with hstanding | hstanding <;> rw [hstanding]
      · exact h
      · exact h.closed
  | @refuses text hnew hdemanded hbefore hafter =>
      rw [hbefore] at h
      obtain ⟨rfl, rfl⟩ := h
      rw [hnew, hdemanded, hafter]
      exact ⟨⟨text, List.prefix_rfl⟩, rfl⟩
  | welcomes hnew hdemanded hbefore hafter =>
      rw [hbefore] at h
      obtain ⟨rfl, rfl⟩ := h
      rw [hnew, hdemanded, hafter]
      exact ⟨[], rfl, rfl⟩
  | replies hnew hdemanded hreply hbefore hafter =>
      rw [hbefore] at h
      rw [hnew, hdemanded, hafter]
      exact Answered.snoc h hreply
  | forwards hnew hdemanded hmsg hbefore hafter =>
      rw [hbefore] at h
      rw [hnew, hdemanded, hafter, Option.toList_none, List.append_nil]
      exact Answered.snoc_message h hmsg

theorem told_of_run (hrun : Run (Fires (step maxClients)) Server.init trace s) (b : TaskId) :
    Told (sentTo b (history maxClients trace)) (trace.filterMap (demanded b))
      (s.task b).phase.standing := by
  refine hrun.invariantTrace (I := fun trace s => Told (sentTo b (history maxClients trace))
    (trace.filterMap (demanded b)) (s.task b).phase.standing) ⟨rfl, rfl⟩ ?_
  intro trace s l s' hrun h hstep
  rw [history_snoc, sentTo_append, List.filterMap_append]
  exact h.step (tells_of_step hstep (onlyMessages_of_run hrun) b)

/-- A handler that is done with its client: it writes its last reply, or has ended. -/
def Closing (phase : Phase) : Prop :=
  (∃ name reply, phase = .replying name reply true) ∨ phase = .ended

/-- A handler that is done tells its client nothing more. -/
theorem Closing.step (h : Closing (s.task b).phase) (hstep : step maxClients s l = some s') :
    Closing (s'.task b).phase ∧ sentTo b (observe maxClients s l) = [] := by
  have hmoved := moved_of_step hstep
  rcases h with ⟨name, reply, hphase⟩ | hphase
  -- a handler that waits for a write is not resumed by a read
  · have hsent : sentTo b (observe maxClients s l) = [] := by
      apply sentTo_eq_nil
      intro msg hmem
      rcases (of_mem_send hstep hmem).2 with ⟨got, order, rfl⟩ | rfl | rfl <;>
        simp [step, hphase] at hstep
    refine ⟨?_, hsent⟩
    -- every other task that moves is in another phase
    have hapart : ∀ {t : TaskId} {phase : Phase}, (s.task t).phase = phase →
        phase ≠ .replying name reply true → b ≠ t := by
      rintro t phase ht hne rfl
      exact hne (ht.symm.trans hphase)
    cases hmoved with
    | turnedAway | refused | reaped => exact .inl ⟨name, reply, hphase⟩
    | refusalFailed | stopped =>
        simp only [Server.shutDown]
        split
        · exact .inl ⟨name, reply, hphase⟩
        · exact .inr rfl
    | @spawned t _ ht | @timedOut t ht | @joined t _ _ ht | @unread t _ _ _ ht
    | @panicked t _ _ ht | @answering t _ _ _ _ _ ht | @dequeued t _ _ _ ht | @orphaned t _ ht
    | @inserted t _ ht | @answered t _ _ ht | @forwarded t _ _ ht | @unforwarded t _ _ ht =>
        have hbt := hapart ht (by simp)
        exact .inl ⟨name, reply, by simpa [hbt] using hphase⟩
    | delivered => exact .inl ⟨name, reply, (Server.sendAll_phase _ b).trans hphase⟩
    | @undelivered t _ _ _ targets _ _ ht =>
        have hbt := hapart ht (by simp)
        refine .inl ⟨name, reply, ?_⟩
        simpa [hbt] using (Server.sendAll_phase targets b).trans hphase
    | @notJoined t _ ht =>
        have hbt : b ≠ t := by
          rcases ht with ⟨reply', ht⟩ | ⟨name', ht, -⟩ <;> exact hapart ht (by simp)
        exact .inl ⟨name, reply, by simpa [hbt] using hphase⟩
    | @bailed t =>
        by_cases hbt : b = t
        · exact .inr (by simp [hbt])
        · exact .inl ⟨name, reply, by simpa [hbt] using hphase⟩
  · have hended := ended_of_moved hmoved hphase
    refine ⟨.inr hended, sentTo_eq_nil fun msg hmem => ?_⟩
    have hwriting := (of_mem_send hstep hmem).1
    rw [hended] at hwriting
    cases hwriting

/-- A second `Join` is answered with an error, and the handler is done with its client. -/
theorem SecondJoin.step (h : SecondJoin b (s, l)) (hstep : step maxClients s l = some s') :
    Closing (s'.task b).phase ∧
      sentTo b (observe maxClients s l) = [.error "Unexpected message received"] := by
  obtain ⟨name, other, order, hphase, rfl⟩ := h
  change (s.task b).phase = .receiving name at hphase
  simp only [step, hphase] at hstep
  split at hstep <;> cases hstep
  next horder =>
    have hstep : step maxClients s (.recv b (.msg (.join other)) order) =
        some (s.setPhase b (.replying name (.error "Unexpected message received") true)) := by
      simp [step, hphase, horder, handleReceived, reactClientMsg]
    refine ⟨.inl ⟨name, .error "Unexpected message received", ?_⟩, ?_⟩
    · simp [handleReceived, reactClientMsg]
    · simp [observe, sendEvent, hstep, hphase, Phase.writing, sentTo]

/-- Nor does it later. -/
theorem nothing_of_closing (h : Closing (s.task b).phase)
    (hrun : Run (Fires (step maxClients)) s trace s') :
    Closing (s'.task b).phase ∧ sentTo b (history maxClients trace) = [] := by
  refine hrun.invariantTrace (I := fun trace s =>
    Closing (s.task b).phase ∧ sentTo b (history maxClients trace) = []) ⟨h, rfl⟩ ?_
  rintro trace s l s' - ⟨hclosing, hsent⟩ hstep
  obtain ⟨hclosing', hnothing⟩ := hclosing.step hstep
  rw [history_snoc, sentTo_append, hsent, hnothing]
  exact ⟨hclosing', rfl⟩

/-- After a second `Join` there is the error, and nothing more. -/
theorem sent_after_join (hrun : Run (Fires (step maxClients)) Server.init trace s) {b : TaskId}
    {before after : List (Server × Label)} {p : Server × Label} (heq : trace = before ++ p :: after)
    (hjoin : SecondJoin b p) : sentTo b (history maxClients trace) =
      sentTo b (history maxClients before) ++ [.error "Unexpected message received"] := by
  obtain ⟨s', -, hstep, hafter⟩ := hrun.split before p after heq
  obtain ⟨hclosing, hsent⟩ := hjoin.step hstep
  obtain ⟨-, hnothing⟩ := nothing_of_closing hclosing hafter
  have hhistory : history maxClients trace =
      history maxClients before ++ observe maxClients p.1 p.2 ++ history maxClients after := by
    simp [heq, history]
  rw [hhistory, sentTo_append, sentTo_append, hsent, hnothing, List.append_nil]

/-! ## Every run -/

/-- **The transcript of a connection.**  In every run, what task `b` has passed to its
writer is either at most one error, and then no request of its client was processed, or
`Welcome` and then, apart from messages of other clients, the replies demanded by the
requests processed, in order.  After a second `Join` there is one more error and nothing
else. -/
theorem transcript_of_run (hrun : Run (Fires (step maxClients)) Server.init trace s)
    (b : TaskId) :
    (Rejected (sentTo b (history maxClients trace)) ∧ trace.filterMap (demanded b) = [] ∨
      Answered (sentTo b (history maxClients trace)) (trace.filterMap (demanded b))) ∧
    ∀ before p after, trace = before ++ p :: after → SecondJoin b p →
      sentTo b (history maxClients trace) =
        sentTo b (history maxClients before) ++ [.error "Unexpected message received"] :=
  ⟨(told_of_run hrun b).closed,
    fun _ _ _ heq hjoin => sent_after_join hrun heq hjoin⟩

/-- "b" sends to "a" while "a" has a `Pong` still to be written, and to all before "a" joins
again. -/
theorem transcript_of_run_joined :
    ∃ trace s, Run (Fires (step 2)) Server.init trace s ∧
      sentTo 0 (history 2 trace) = [.welcome, .pong, .message "b" "hi", .message "b" "all",
        .error "Unexpected message received"] ∧
      Answered (sentTo 0 (history 2 trace)) (trace.filterMap (demanded 0)) ∧
      ∃ before, before <+: trace ∧ sentTo 0 (history 2 trace) =
        sentTo 0 (history 2 before) ++ [.error "Unexpected message received"] := by
  let table := [("a", 0), ("b", 1)]
  obtain ⟨trace, s, hrun, hp⟩ := exists_run_of_replay (step 2) Server.init
    [.accept 0, .accept 1, .recv 0 (.msg (.join "a")) [], .recv 1 (.msg (.join "b")) [],
      .wrote 1 true, .wrote 0 true, .recv 0 (.msg .ping) table,
      .recv 1 (.msg (.sendDM "a" "hi")) table, .wrote 0 true, .dequeue 0, .wrote 0 true,
      .recv 1 (.msg (.broadcast "all")) table, .dequeue 0, .wrote 0 true,
      .recv 0 (.msg (.join "c")) table, .wrote 0 true]
    (fun r => decide (sentTo 0 (history 2 r.1) = [.welcome, .pong, .message "b" "hi",
        .message "b" "all", .error "Unexpected message received"] ∧
      ∃ p ∈ r.1, (p.1.task 0).phase = .receiving "a" ∧ p.2 = .recv 0 (.msg (.join "c")) table))
    (by decide +kernel)
  obtain ⟨hsent, p, hp, hphase, hl⟩ := of_decide_eq_true hp
  obtain ⟨hclosed, hlast⟩ := transcript_of_run hrun 0
  obtain ⟨before, after, rfl⟩ := List.append_of_mem hp
  refine ⟨_, s, hrun, hsent, hclosed.resolve_left fun h => ?_, before, List.prefix_append _ _,
    hlast before p after rfl ⟨_, _, _, hphase, hl⟩⟩
  -- this client was told more than one error
  obtain ⟨⟨text, hinitial⟩, -⟩ := h
  rw [hsent] at hinitial
  exact absurd hinitial.length_le (by simp)

end RustCourse.Lesson10
