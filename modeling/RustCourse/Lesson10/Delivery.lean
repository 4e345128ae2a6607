import Mathlib.Data.List.TakeWhile
import RustCourse.Lesson10.Registry

/-!
# Every message arrives once, in order

A message from client `A` to client `B` goes through `B`'s channel: `A`'s handler puts
it there, `B`'s handler takes it out and writes it.  For runs with distinct names and
without failures (`Reliable`) this file proves the conservation law behind the chat:
while `B` is in its loop,

  what `B`'s handler wrote from `A`, followed by what is queued from `A`
    = what `A`'s requests since `B`'s insertion owe to `B`,

as lists.  So nothing is lost, nothing is duplicated and nothing is overtaken.

The law is kept step by step (`Balanced`): the messages from `A` that a step lets `B`
write, together with the new queue, are the old queue together with what the step's
requests of `A` owe.  Two facts about names make the requests balance: the entry of
`B`'s name is `B`'s channel, and no other task uses that name.
-/

namespace RustCourse.Lesson10

open Chat Transition

/-! ## The two sides of the law -/

/-- The messages of a list that were sent in the name of `name`. -/
def messagesFrom (name : String) (msgs : List ServerToClientMsg) : List ServerToClientMsg :=
  msgs.filter fun
    | .message sender _ => sender = name
    | _ => false

/-- The messages passed to `writer.send` by task `b`, in order. -/
def sentTo (b : TaskId) (events : List Event) : List ServerToClientMsg :=
  events.filterMap fun
    | .send t msg => if t = b then some msg else none
    | _ => none

/-- What a request of the client called `name` owes to another client called `other`. -/
def owes (name other : String) : ClientToServerMsg → List ServerToClientMsg
  | .sendDM recipient message => if recipient = other then [.message name message] else []
  | .broadcast message => [.message name message]
  | .join _ => []
  | .ping => []
  | .listUsers => []

/-- What the requests that task `a`, called `name`, processed owe to `other`. -/
def owedBy (a : TaskId) (name other : String) (events : List Event) : List ServerToClientMsg :=
  events.flatMap fun
    | .request t msg => if t = a then owes name other msg else []
    | _ => []

/-- The event is the `insert` of the client of `b`. -/
def IsInsertionOf (b : TaskId) : Event → Bool
  | .inserted t _ => t = b
  | _ => false

/-- The events from the insertion of task `b` into the map on. -/
def sinceInsertion (b : TaskId) (events : List Event) : List Event :=
  events.dropWhile fun event => !IsInsertionOf b event

/-- No write fails and no reader panics. -/
def Reliable : Label → Prop
  | .wrote _ ok => ok = true
  | .refused ok => ok = true
  | .recv _ got _ => got ≠ .panics
  | _ => True

@[simp] theorem messagesFrom_append (name : String) (first second : List ServerToClientMsg) :
    messagesFrom name (first ++ second) = messagesFrom name first ++ messagesFrom name second :=
  List.filter_append ..

@[simp] theorem messagesFrom_nil (name : String) : messagesFrom name [] = [] := rfl

@[simp] theorem sentTo_append (b : TaskId) (first second : List Event) :
    sentTo b (first ++ second) = sentTo b first ++ sentTo b second :=
  List.filterMap_append ..

@[simp] theorem owedBy_append (a : TaskId) (name other : String) (first second : List Event) :
    owedBy a name other (first ++ second) =
      owedBy a name other first ++ owedBy a name other second :=
  List.flatMap_append ..

private theorem sinceInsertion_append {b : TaskId} {events : List Event}
    (h : ∃ event ∈ events, IsInsertionOf b event = true) (new : List Event) :
    sinceInsertion b (events ++ new) = sinceInsertion b events ++ new := by
  obtain ⟨event, hmem, hevent⟩ := h
  rw [sinceInsertion, List.dropWhile_append, if_neg]
  · rfl
  · simp only [List.isEmpty_iff, List.dropWhile_eq_nil_iff]
    intro hall
    simpa [hevent] using hall event hmem

private theorem sinceInsertion_first {b : TaskId} {events : List Event}
    (h : ∀ event ∈ events, IsInsertionOf b event = false) (new : List Event) :
    sinceInsertion b (events ++ new) = sinceInsertion b new :=
  List.dropWhile_append_of_pos fun event hmem => by simp [h event hmem]

/-! ## Where events come from -/

variable {maxClients : ℕ} {s s' : Server} {l : Label} {a b t : TaskId} {name other : String}

theorem mem_sendEvent (hstep : step maxClients s l = some s') {u : TaskId} {event : Event} :
    event ∈ sendEvent maxClients s l u ↔
      ∃ msg, (s'.task u).phase.writing = some msg ∧ event = .send u msg := by
  simp [sendEvent, hstep, eq_comm]

theorem of_mem_join (hstep : step maxClients s l = some s')
    (h : Event.join t name ∈ observe maxClients s l) :
    (s.task t).phase = .joining ∧ ∃ order, l = .recv t (.msg (.join name)) order := by
  unfold observe at h
  split at h
  · next u msg order =>
      rw [List.mem_append] at h
      rcases h with h | h
      · split at h
        · next joined hphase =>
            simp only [List.mem_singleton, Event.join.injEq] at h
            obtain ⟨rfl, rfl⟩ := h
            exact ⟨hphase, order, rfl⟩
        · simp at h
        · simp at h
      · simp [mem_sendEvent hstep] at h
  · simp [mem_sendEvent hstep] at h
  · simp [mem_sendEvent hstep] at h
  · simp [mem_sendEvent hstep] at h
  · split at h <;> simp at h
  · simp at h

private theorem of_mem_inserted (hstep : step maxClients s l = some s')
    (h : Event.inserted t name ∈ observe maxClients s l) :
    (s.task t).phase = .welcoming name ∧ l = .wrote t true := by
  unfold observe at h
  split at h
  · rw [List.mem_append] at h
    rcases h with h | h
    · split at h <;> simp at h
    · simp [mem_sendEvent hstep] at h
  · simp [mem_sendEvent hstep] at h
  · simp [mem_sendEvent hstep] at h
  · simp [mem_sendEvent hstep] at h
  · split at h
    · next hphase =>
        simp only [List.mem_singleton, Event.inserted.injEq] at h
        obtain ⟨rfl, rfl⟩ := h
        exact ⟨hphase, rfl⟩
    · simp at h
  · simp at h

theorem of_mem_request (hstep : step maxClients s l = some s') {msg : ClientToServerMsg}
    (h : Event.request t msg ∈ observe maxClients s l) :
    (∃ name, (s.task t).phase = .receiving name) ∧ ∃ order, l = .recv t (.msg msg) order := by
  unfold observe at h
  split at h
  · next u msg order =>
      rw [List.mem_append] at h
      rcases h with h | h
      · split at h
        · simp at h
        · next hphase =>
            simp only [List.mem_singleton, Event.request.injEq] at h
            obtain ⟨rfl, rfl⟩ := h
            exact ⟨⟨_, hphase⟩, order, rfl⟩
        · simp at h
      · simp [mem_sendEvent hstep] at h
  · simp [mem_sendEvent hstep] at h
  · simp [mem_sendEvent hstep] at h
  · simp [mem_sendEvent hstep] at h
  · split at h <;> simp at h
  · simp at h

theorem of_mem_send (hstep : step maxClients s l = some s') {msg : ServerToClientMsg}
    (h : Event.send t msg ∈ observe maxClients s l) :
    (s'.task t).phase.writing = some msg ∧
      ((∃ got order, l = .recv t got order) ∨ l = .timeout t ∨ l = .dequeue t) := by
  unfold observe at h
  split at h
  · next u msg order =>
      rw [List.mem_append] at h
      rcases h with h | h
      · split at h <;> simp at h
      · simp only [mem_sendEvent hstep, Event.send.injEq] at h
        obtain ⟨msg, hwriting, rfl, rfl⟩ := h
        exact ⟨hwriting, .inl ⟨_, _, rfl⟩⟩
  · simp only [mem_sendEvent hstep, Event.send.injEq] at h
    obtain ⟨msg, hwriting, rfl, rfl⟩ := h
    exact ⟨hwriting, .inl ⟨_, _, rfl⟩⟩
  · simp only [mem_sendEvent hstep, Event.send.injEq] at h
    obtain ⟨msg, hwriting, rfl, rfl⟩ := h
    exact ⟨hwriting, .inr (.inl rfl)⟩
  · simp only [mem_sendEvent hstep, Event.send.injEq] at h
    obtain ⟨msg, hwriting, rfl, rfl⟩ := h
    exact ⟨hwriting, .inr (.inr rfl)⟩
  · split at h <;> simp at h
  · simp at h

theorem sentTo_eq_nil {events : List Event} (h : ∀ msg, Event.send b msg ∉ events) :
    sentTo b events = [] := by
  rw [sentTo, List.filterMap_eq_nil_iff]
  rintro (_ | _ | _ | ⟨t, msg⟩) hmem <;> try rfl
  have hne : t ≠ b := by
    intro heq
    subst heq
    exact h msg hmem
  simp [hne]

/-! ## Requests -/

/-- A reply is no message from another client. -/
theorem messagesFrom_reply {clients : HashMap String TaskId} {order : List (String × TaskId)}
    {sender : String} {msg : ClientToServerMsg} {reply : ServerToClientMsg} {bail : Bool}
    (h : reactClientMsg clients order sender msg = .reply reply bail) :
    messagesFrom name [reply] = [] := by
  cases msg with
  | join | ping | listUsers =>
      simp only [reactClientMsg, Reaction.reply.injEq] at h
      simp [← h.1, messagesFrom]
  | broadcast => simp [reactClientMsg] at h
  | sendDM recipient message =>
      simp only [reactClientMsg] at h
      split at h
      · simp only [Reaction.reply.injEq] at h
        simp [← h.1, messagesFrom]
      · split at h
        · simp at h
        · simp only [Reaction.reply.injEq] at h
          simp [← h.1, messagesFrom]

/-- A request that is answered owes nothing to a client that is in the map under another
name. -/
theorem owes_of_reply {clients : HashMap String TaskId} {order : List (String × TaskId)}
    {msg : ClientToServerMsg} {reply : ServerToClientMsg} {bail : Bool}
    (h : reactClientMsg clients order name msg = .reply reply bail) (hne : other ≠ name)
    (hother : other ∈ clients) : owes name other msg = [] := by
  cases msg with
  | join | ping | listUsers => rfl
  | broadcast => simp [reactClientMsg] at h
  | sendDM recipient message =>
      have hrecipient : recipient ≠ other := by
        intro heq
        subst heq
        obtain ⟨channel, hlookup⟩ := Finmap.mem_iff.mp hother
        simp [reactClientMsg, hne, hlookup] at h
      simp [owes, hrecipient]

/-- A request that is forwarded puts into the channel of `other` exactly what it owes. -/
theorem owes_of_sends {clients : HashMap String TaskId} {order : List (String × TaskId)}
    {msg : ClientToServerMsg} {targets : List TaskId} {forwarded : ServerToClientMsg}
    (horder : clients.Enumerates order)
    (h : reactClientMsg clients order name msg = .sends targets forwarded) (hne : other ≠ name)
    (hother : ∀ key, clients.lookup key = some b ↔ key = other) :
    messagesFrom name (List.replicate (targets.count b) forwarded) = owes name other msg := by
  cases msg with
  | join | ping | listUsers => simp [reactClientMsg] at h
  | broadcast message =>
      simp only [reactClientMsg, Reaction.sends.injEq] at h
      -- `b` is under the name `other` only, so a broadcast goes to it once
      have hcount : targets.count b = 1 := by
        have hmem : (other, b) ∈ order := horder.mem_iff.mpr ((hother other).mpr rfl)
        have hnodup : order.Nodup := List.Nodup.of_map _ horder.nodup_keys
        have honly : ∀ item ∈ order,
            (decide (item.2 = b) && decide (item.1 ≠ name)) = true ↔
              (item == (other, b)) = true := by
          rintro ⟨key, channel⟩ hitem
          have hkey := horder.mem_iff.mp hitem
          simp only [Bool.and_eq_true, decide_eq_true_eq, beq_iff_eq, Prod.mk.injEq]
          constructor
          · rintro ⟨rfl, -⟩
            exact ⟨(hother key).mp hkey, rfl⟩
          · rintro ⟨rfl, rfl⟩
            exact ⟨rfl, hne⟩
        rw [← h.1, List.count_eq_countP, List.countP_map, List.countP_filter]
        rw [← List.count_eq_one_of_mem hnodup hmem, List.count_eq_countP]
        exact List.countP_congr fun item hitem => by simpa using honly item hitem
      simp [hcount, ← h.2, owes, messagesFrom]
  | sendDM recipient message =>
      simp only [reactClientMsg] at h
      split at h
      · cases h
      · split at h
        · next channel hlookup =>
            simp only [Reaction.sends.injEq] at h
            by_cases hrecipient : recipient = other
            -- the recipient has the channel `b`, or another one
            · obtain rfl : channel = b := by
                rw [(hother recipient).mpr hrecipient] at hlookup
                exact (Option.some.inj hlookup).symm
              simp [← h.1, ← h.2, owes, hrecipient, messagesFrom]
            · have hchannel : channel ≠ b := by
                intro heq
                subst heq
                exact hrecipient ((hother recipient).mp hlookup)
              simp [← h.1, owes, hrecipient, hchannel]
        · cases h

private theorem messagesFrom_forwarded {clients : HashMap String TaskId}
    {order : List (String × TaskId)} {sender : String} {msg : ClientToServerMsg}
    {targets : List TaskId} {forwarded : ServerToClientMsg}
    (h : reactClientMsg clients order sender msg = .sends targets forwarded)
    (hne : sender ≠ name) (n : ℕ) : messagesFrom name (List.replicate n forwarded) = [] := by
  obtain ⟨message, rfl⟩ : ∃ message, forwarded = .message sender message := by
    cases msg with
    | join | ping | listUsers => simp [reactClientMsg] at h
    | broadcast message =>
        simp only [reactClientMsg, Reaction.sends.injEq] at h
        exact ⟨message, h.2.symm⟩
    | sendDM recipient message =>
        simp only [reactClientMsg] at h
        split at h
        · cases h
        · split at h
          · simp only [Reaction.sends.injEq] at h
            exact ⟨message, h.2.symm⟩
          · cases h
  simp [messagesFrom, hne]

/-! ## One step -/

/-- The step keeps the balance between what `b` may write, what is queued for it and what
it is owed. -/
def Balanced (a b : TaskId) (name other : String) (s s' : Server) (new : List Event) : Prop :=
  messagesFrom name (sentTo b new) ++ messagesFrom name (s'.task b).queue =
    messagesFrom name (s.task b).queue ++ owedBy a name other new

/-- What other tasks write and join does not touch the balance of `b`. -/
theorem balanced_of_others {new : List Event} (hqueue : (s'.task b).queue = (s.task b).queue)
    (hsend : ∀ msg, Event.send b msg ∉ new) (hrequest : ∀ t msg, Event.request t msg ∉ new) :
    Balanced a b name other s s' new := by
  have hsent : sentTo b new = [] := sentTo_eq_nil hsend
  have howed : owedBy a name other new = [] := by
    rw [owedBy, List.flatMap_eq_nil_iff]
    rintro (_ | _ | ⟨t, msg⟩ | _) hmem <;> try rfl
    exact absurd hmem (hrequest t msg)
  simp [Balanced, hsent, howed, hqueue]

/-- A step of another task that does not end in a request leaves the balance alone. -/
theorem balanced_of_moved_other (hstep : step maxClients s l = some s')
    (hqueue : (s'.task b).queue = (s.task b).queue)
    (hother : ∀ got order, l ≠ .recv b got order) (htimeout : l ≠ .timeout b)
    (hdequeue : l ≠ .dequeue b)
    (hrequest : ∀ t msg order, l = .recv t (.msg msg) order →
      ∀ name, (s.task t).phase ≠ .receiving name) :
    Balanced a b name other s s' (observe maxClients s l) := by
  refine balanced_of_others hqueue ?_ ?_
  · intro msg hmem
    rcases (of_mem_send hstep hmem).2 with ⟨got, order, hl⟩ | hl | hl
    · exact hother got order hl
    · exact htimeout hl
    · exact hdequeue hl
  · intro t msg hmem
    obtain ⟨⟨name, hphase⟩, order, hl⟩ := of_mem_request hstep hmem
    exact hrequest t msg order hl name hphase

/-- A request that is answered by its own handler is owed to nobody else, and its answer is
no message from `a`. -/
theorem balanced_of_answering {t : TaskId} {sender : String} {msg : ClientToServerMsg}
    {order : List (String × TaskId)} {answer : ServerToClientMsg} {bail : Bool}
    (hstep : step maxClients s (.recv t (.msg msg) order) =
      some (s.setPhase t (.replying sender answer bail)))
    (hphase : (s.task t).phase = .receiving sender)
    (hreact : reactClientMsg s.clients order sender msg = .reply answer bail)
    (hne : other ≠ name) (hother : other ∈ s.clients) (hsender : t = a → sender = name) :
    Balanced a b name other s (s.setPhase t (.replying sender answer bail))
      (observe maxClients s (.recv t (.msg msg) order)) := by
  have hevents : observe maxClients s (.recv t (.msg msg) order) =
      [.request t msg, .send t answer] := by
    simp [observe, sendEvent, hstep, hphase, Phase.writing]
  have howed : (if t = a then owes name other msg else []) = [] := by
    split
    · next hta =>
        obtain rfl := hsender hta
        exact owes_of_reply hreact hne hother
    · rfl
  have hqueue : ((s.setPhase t (.replying sender answer bail)).task b).queue =
      (s.task b).queue := by
    by_cases hbt : b = t <;> simp [hbt]
  have hreply : messagesFrom name (if t = b then [answer] else []) = [] := by
    split
    · exact messagesFrom_reply hreact
    · rfl
  have hsent : sentTo b [.request t msg, .send t answer] = if t = b then [answer] else [] := by
    by_cases htb : t = b <;> simp [sentTo, htb]
  rw [Balanced, hevents, hsent, hreply, hqueue]
  simp [owedBy, howed]

/-- A request that is forwarded puts into the channel of `b` what it owes to `b`. -/
theorem balanced_of_delivered {t : TaskId} {sender : String} {msg : ClientToServerMsg}
    {order : List (String × TaskId)} {targets : List TaskId} {forwarded : ServerToClientMsg}
    (hstep : step maxClients s (.recv t (.msg msg) order) = some (s.sendAll forwarded targets).1)
    (hphase : (s.task t).phase = .receiving sender) (horder : s.clients.Enumerates order)
    (hreact : reactClientMsg s.clients order sender msg = .sends targets forwarded)
    (hopen : ∀ target ∈ targets, s.isOpen target = true) (hne : other ≠ name)
    (hkey : ∀ key, s.clients.lookup key = some b ↔ key = other) (hsender : sender = name ↔ t = a) :
    Balanced a b name other s (s.sendAll forwarded targets).1
      (observe maxClients s (.recv t (.msg msg) order)) := by
  have hevents : observe maxClients s (.recv t (.msg msg) order) = [.request t msg] := by
    simp [observe, sendEvent, hstep, hphase, Phase.writing, Server.sendAll_phase]
  have hqueue := Server.sendAll_queue ((s.sendAll_ok forwarded targets).mpr hopen) b
  have hforwarded : messagesFrom name (List.replicate (targets.count b) forwarded) =
      if t = a then owes name other msg else [] := by
    split
    · next hta =>
        obtain rfl := hsender.mpr hta
        exact owes_of_sends horder hreact hne hkey
    · next hta => exact messagesFrom_forwarded hreact (fun h => hta (hsender.mp h)) _
  rw [Balanced, hevents, hqueue, messagesFrom_append, hforwarded]
  simp [sentTo, owedBy]

/-- A message taken from the queue is the next one written. -/
theorem balanced_of_dequeued {t : TaskId} {sender : String} {msg : ServerToClientMsg}
    {rest : List ServerToClientMsg}
    (hstep : step maxClients s (.dequeue t) = some (s.setTask t ⟨.forwarding sender msg, rest⟩))
    (hqueue : (s.task t).queue = msg :: rest) :
    Balanced a b name other s (s.setTask t ⟨.forwarding sender msg, rest⟩)
      (observe maxClients s (.dequeue t)) := by
  have hevents : observe maxClients s (.dequeue t) = [.send t msg] := by
    simp [observe, sendEvent, hstep, Phase.writing]
  rw [Balanced, hevents]
  by_cases hbt : b = t
  · subst hbt
    simp [sentTo, owedBy, hqueue, ← messagesFrom_append]
  · simp [sentTo, owedBy, hbt, Ne.symm hbt]

/-- **One step keeps the law**: `b` is in its loop before and after, `a` is another task,
and only `a` uses the name `name`. -/
theorem balanced_step (hstep : step maxClients s l = some s') (howned : Owned s)
    (hserved : EntriesServed s) (hb : s.serving b = some other)
    (hb' : s'.serving b ≠ none) (hne : other ≠ name)
    (hunique : ∀ t n, s.serving t = some n → (n = name ↔ t = a)) :
    Balanced a b name other s s' (observe maxClients s l) := by
  have hkey : ∀ key, s.clients.lookup key = some b ↔ key = other := by
    intro key
    constructor
    · intro hlookup
      exact Option.some.inj ((hserved key b hlookup).symm.trans hb)
    · intro heq
      subst heq
      exact howned b key hb
  have hapart : ∀ {t : TaskId} {phase : Phase}, (s.task t).phase = phase → phase.serving = none →
      b ≠ t := by
    intro t phase hphase hnone heq
    subst heq
    simp [Server.serving, hphase, hnone] at hb
  have hstays : ∀ {t : TaskId}, s'.serving t = none → b ≠ t := by
    intro t hleft heq
    subst heq
    exact hb' hleft
  cases moved_of_step hstep with
  | turnedAway | refused | reaped =>
      exact balanced_of_others rfl (by simp [observe]) (by simp [observe])
  | spawned _ hphase =>
      have hbt := hapart hphase rfl
      exact balanced_of_others (by simp [hbt]) (by simp [observe]) (by simp [observe])
  | refusalFailed | stopped =>
      refine absurd ?_ hb'
      simp only [Server.serving, Server.shutDown]
      split
      · next habsent => simp [habsent]
      · rfl
  | timedOut hphase =>
      have hbt := hapart hphase rfl
      refine balanced_of_moved_other hstep (by simp [hbt]) ?_ ?_ ?_ ?_ <;>
        simp [Ne.symm hbt]
  | @joined t got order hphase =>
      have hbt := hapart hphase rfl
      refine balanced_of_moved_other hstep (by simp [hbt]) ?_ ?_ ?_ ?_
      · simp [Ne.symm hbt]
      · simp
      · simp
      · intro u msg order' hl name hreceiving
        cases hl
        simp [hphase] at hreceiving
  | @answering t sender msg order answer bail hphase horder hreact =>
      have hsender := hunique t sender (by simp [Server.serving, hphase])
      have hother := Finmap.mem_of_lookup_eq_some ((hkey other).mpr rfl)
      exact balanced_of_answering hstep hphase hreact hne hother hsender.mpr
  | @delivered t sender msg order targets forwarded hphase horder hreact hopen =>
      have hsender := hunique t sender (by simp [Server.serving, hphase])
      exact balanced_of_delivered hstep hphase horder hreact hopen hne hkey hsender
  | @undelivered t sender msg order targets forwarded target hphase horder hreact hmem hclosed =>
      -- an entry of the map belongs to a handler in its loop, so its channel is open
      obtain ⟨key, _, hlookup⟩ := (mem_targets_iff horder hreact).mp hmem
      have hopen := Server.isOpen_iff.mpr ⟨key, hserved key target hlookup⟩
      simp [hopen] at hclosed
  | dequeued hphase hqueue => exact balanced_of_dequeued hstep hqueue
  | @inserted t joined hphase =>
      have hbt := hapart hphase rfl
      exact balanced_of_moved_other hstep (by simp [hbt]) (by simp) (by simp) (by simp) (by simp)
  | @answered t sender reply hphase | @forwarded t sender msg hphase =>
      refine balanced_of_moved_other hstep ?_ (by simp) (by simp) (by simp) (by simp)
      by_cases hbt : b = t <;> simp [hbt]
  | @unread t sender got order hphase hgot =>
      have hbt := hstays (t := t) (by simp [Server.serving])
      refine balanced_of_moved_other hstep (by simp [hbt]) ?_ (by simp) (by simp) ?_
      · simp [Ne.symm hbt]
      · rcases hgot with rfl | rfl <;> simp
  | @panicked t sender order hphase =>
      have hbt := hstays (t := t) (by simp [Server.serving])
      refine balanced_of_moved_other hstep (by simp [hbt]) ?_ (by simp) (by simp) (by simp)
      simp [Ne.symm hbt]
  | @orphaned t sender hphase =>
      have hbt := hstays (t := t) (by simp [Server.serving])
      refine balanced_of_moved_other hstep (by simp [hbt]) (by simp) (by simp) ?_ (by simp)
      simp [Ne.symm hbt]
  | @notJoined t ok | @bailed t ok | @unforwarded t =>
      have hbt := hstays (t := t) (by simp [Server.serving])
      exact balanced_of_moved_other hstep (by simp [hbt]) (by simp) (by simp) (by simp) (by simp)

/-! ## Runs -/

variable {trace : List (Server × Label)}

/-- An event that leaves a task at a stage shows, later on, that the task has come that far. -/
theorem stage_of_mem (hrun : Run (Fires (step maxClients)) Server.init trace s) {u : TaskId}
    {event : Event} {k : ℕ}
    (hevent : ∀ {s s' l}, step maxClients s l = some s' → event ∈ observe maxClients s l →
      k ≤ (s'.task u).phase.stage) :
    event ∈ history maxClients trace → k ≤ (s.task u).phase.stage := by
  refine hrun.invariantTrace (I := fun trace s =>
    event ∈ history maxClients trace → k ≤ (s.task u).phase.stage) (by simp [history]) ?_
  intro trace s l s' _ ih hstep hmem
  rw [history_snoc, List.mem_append] at hmem
  rcases hmem with hmem | hmem
  · exact (ih hmem).trans (stage_le_of_moved (moved_of_step hstep) u)
  · exact hevent hstep hmem

theorem stage_of_join (hrun : Run (Fires (step maxClients)) Server.init trace s)
    (h : Event.join t name ∈ history maxClients trace) : 2 ≤ (s.task t).phase.stage := by
  refine stage_of_mem hrun (fun {s s' l} hstep hmem => ?_) h
  obtain ⟨hphase, order, rfl⟩ := of_mem_join hstep hmem
  simp only [step, hphase, Option.some.injEq] at hstep
  simpa [← hstep] using joinClient_stage s.clients (.msg (.join name))

theorem stage_of_inserted (hrun : Run (Fires (step maxClients)) Server.init trace s)
    (h : Event.inserted t name ∈ history maxClients trace) : 3 ≤ (s.task t).phase.stage := by
  refine stage_of_mem hrun (fun {s s' l} hstep hmem => ?_) h
  obtain ⟨hphase, rfl⟩ := of_mem_inserted hstep hmem
  simp only [step, hphase, if_true, Option.some.injEq] at hstep
  simp [← hstep, Phase.stage]

/-- A task reads at most one name in its first `Join`. -/
theorem join_unique (hrun : Run (Fires (step maxClients)) Server.init trace s) :
    Event.join t name ∈ history maxClients trace →
      Event.join t other ∈ history maxClients trace → name = other := by
  refine hrun.invariantTrace (I := fun trace _ => Event.join t name ∈ history maxClients trace →
    Event.join t other ∈ history maxClients trace → name = other) (by simp [history]) ?_
  intro trace s l s' hrun ih hstep hname hother
  -- the second of two joins would be read by a task that is past `joining`
  have hlate : ∀ {first second}, Event.join t first ∈ history maxClients trace →
      Event.join t second ∉ observe maxClients s l := by
    intro first second hfirst hsecond
    have hstage := stage_of_join hrun hfirst
    simp [(of_mem_join hstep hsecond).1, Phase.stage] at hstage
  rw [history_snoc, List.mem_append] at hname hother
  rcases hname with hname | hname <;> rcases hother with hother | hother
  · exact ih hname hother
  · exact absurd hother (hlate hname)
  · exact absurd hname (hlate hother)
  · obtain ⟨_, order, rfl⟩ := of_mem_join hstep hname
    obtain ⟨_, order', hl⟩ := of_mem_join hstep hother
    cases hl
    rfl

private theorem inserted_of_serving (hrun : Run (Fires (step maxClients)) Server.init trace s) :
    s.serving b = some name → Event.inserted b name ∈ history maxClients trace := by
  refine hrun.invariantTrace (I := fun trace s => s.serving b = some name →
    Event.inserted b name ∈ history maxClients trace) (by simp [Server.serving, Server.init]) ?_
  intro trace s l s' _ ih hstep hserving
  rw [history_snoc, List.mem_append]
  cases effect_of_step hstep with
  | quiet _ hkept => exact .inl (ih (hkept b ▸ hserving))
  | @insert t joined hl hphase _ hkept =>
      rw [hkept] at hserving
      split at hserving
      · next hbt =>
          cases hserving
          subst hbt hl
          exact .inr (by simp [observe, hphase])
      · exact .inl (ih hserving)
  | leave _ _ _ hkept | drop _ _ _ _ hkept =>
      rw [hkept] at hserving
      split at hserving
      · cases hserving
      · exact .inl (ih hserving)
  | shutDown _ _ hkept => simp [hkept] at hserving

/-- Nothing another client sent is written before the loop. -/
theorem messagesFrom_sentTo_of_stage
    (hrun : Run (Fires (step maxClients)) Server.init trace s) :
    (s.task b).phase.stage ≤ 2 → messagesFrom name (sentTo b (history maxClients trace)) = [] := by
  refine hrun.invariantTrace (I := fun trace s => (s.task b).phase.stage ≤ 2 →
    messagesFrom name (sentTo b (history maxClients trace)) = [])
    (by simp [history, sentTo]) ?_
  intro trace s l s' _ ih hstep hstage
  have hbefore : (s.task b).phase.stage ≤ 2 :=
    (stage_le_of_moved (moved_of_step hstep) b).trans hstage
  rw [history_snoc, sentTo_append, messagesFrom_append, ih hbefore, List.nil_append,
    messagesFrom, List.filter_eq_nil_iff]
  intro msg hmsg
  -- what is written comes from `join_client`, since `b` has not entered its loop
  have hsend : Event.send b msg ∈ observe maxClients s l := by
    simp only [sentTo, List.mem_filterMap] at hmsg
    obtain ⟨event, hmem, hevent⟩ := hmsg
    split at hevent
    · split at hevent <;> cases hevent
      next htb => exact htb ▸ hmem
    · cases hevent
  obtain ⟨hwriting, hl⟩ := of_mem_send hstep hsend
  have hearly : ∀ {name}, (s.task b).phase ≠ .receiving name := by
    intro name hphase
    simp [hphase, Phase.stage] at hbefore
  rcases hl with ⟨got, order, rfl⟩ | rfl | rfl <;> simp only [Fires, step] at hstep
  · split at hstep
    · cases hstep
      simp only [Server.setPhase_task, if_true] at hwriting
      unfold joinClient at hwriting
      split at hwriting <;> (try split at hwriting) <;> simp only [Phase.writing] at hwriting <;>
        cases hwriting <;> simp
    · next hphase => exact absurd hphase hearly
    · cases hstep
  · split at hstep <;> cases hstep
    simp only [Server.setPhase_task, if_true, Phase.writing, Option.some.injEq] at hwriting
    simp [← hwriting]
  · split at hstep
    · next hphase _ => exact absurd hphase hearly
    · next hphase _ => exact absurd hphase hearly
    · cases hstep

/-- The names that the tasks read in `Join`: `name` is read by `a` and by nobody else. -/
def OnlyReader (a : TaskId) (name : String) (events : List Event) : Prop :=
  ∀ t n, Event.join t n ∈ events → (n = name ↔ t = a)

theorem not_drops_of_reliable {p : Server × Label} (h : Reliable p.2) (t : TaskId) :
    ¬ Drops p.1 p.2 t := by
  intro hdrops
  generalize hl : p.2 = l at h hdrops
  cases hdrops with
  | panicked => exact h rfl
  | unforwarded => cases h

theorem delivery_of_onlyReader (hrun : Run (Fires (step maxClients)) Server.init trace s)
    (hab : a ≠ b) :
    DistinctJoins (history maxClients trace) → (∀ p ∈ trace, Reliable p.2) →
      OnlyReader a name (history maxClients trace) → s.serving b = some other →
      messagesFrom name (sentTo b (history maxClients trace)) ++
          messagesFrom name (s.task b).queue =
        owedBy a name other (sinceInsertion b (history maxClients trace)) := by
  refine hrun.invariantTrace (I := fun trace s => DistinctJoins (history maxClients trace) →
    (∀ p ∈ trace, Reliable p.2) → OnlyReader a name (history maxClients trace) →
    s.serving b = some other →
    messagesFrom name (sentTo b (history maxClients trace)) ++ messagesFrom name (s.task b).queue =
      owedBy a name other (sinceInsertion b (history maxClients trace)))
    (by simp [Server.serving, Server.init]) ?_
  intro trace s l s' hrun ih hstep hdistinct hreliable honly hserving'
  rw [history_snoc] at hdistinct honly
  have hdistinct := hdistinct.of_append
  have hreliable : ∀ p ∈ trace, Reliable p.2 := fun p hp => hreliable p (by simp [hp])
  have honly : OnlyReader a name (history maxClients trace) :=
    fun t n h => honly t n (List.mem_append_left _ h)
  rw [history_snoc, sentTo_append, messagesFrom_append]
  by_cases hserving : s.serving b = some other
  -- both sides of the law grow alike while `b` stays in its loop
  · have hne : other ≠ name := by
      intro heq
      exact hab ((honly b other (join_of_serving hrun hserving)).mp heq).symm
    have hbalanced : Balanced a b name other s s' (observe maxClients s l) :=
      balanced_step hstep (owned_of_distinctJoins hrun hdistinct)
        (entriesServed_of_kept hrun fun p hp => not_drops_of_reliable (hreliable p hp))
        hserving (by simp [hserving']) hne
        fun t n h => honly t n (join_of_serving hrun h)
    rw [sinceInsertion_append ⟨_, inserted_of_serving hrun hserving, by simp [IsInsertionOf]⟩,
      owedBy_append, ← ih hdistinct hreliable honly hserving, List.append_assoc, hbalanced,
      List.append_assoc]
  · -- `b` enters its loop in this step, with an empty channel
    obtain ⟨hphase, rfl⟩ : (s.task b).phase = .welcoming other ∧ l = .wrote b true := by
      cases effect_of_step hstep with
      | quiet _ hkept => exact absurd (hkept b ▸ hserving') hserving
      | @insert t joined hl hphase _ hkept =>
          rw [hkept] at hserving'
          split at hserving'
          · next hbt =>
              cases hserving'
              subst hbt
              exact ⟨hphase, hl⟩
          · exact absurd hserving' hserving
      | leave _ _ _ hkept | drop _ _ _ _ hkept =>
          rw [hkept] at hserving'
          split at hserving'
          · cases hserving'
          · exact absurd hserving' hserving
      | shutDown _ _ hkept => simp [hkept] at hserving'
    have hstage : (s.task b).phase.stage ≤ 2 := by simp [hphase, Phase.stage]
    have hfirst : ∀ event ∈ history maxClients trace, IsInsertionOf b event = false := by
      rintro (_ | ⟨t, joined⟩ | _ | _) hmem <;> try rfl
      have htb : t ≠ b := by
        intro heq
        subst heq
        have := stage_of_inserted hrun hmem
        omega
      simp [IsInsertionOf, htb]
    rw [messagesFrom_sentTo_of_stage hrun hstage, sinceInsertion_first hfirst]
    simp only [Fires, step, hphase, if_true, Option.some.injEq] at hstep
    simp [observe, hphase, ← hstep, sentTo, owedBy, sinceInsertion, IsInsertionOf]

/-! ## The law -/

/-- **Delivery.**  In every run with distinct names, without failed writes and without
panics, while `b` is in its loop: the messages of `a` that `b`'s handler has written or is
writing, followed by those still queued for it, are those that `a`'s requests since `b`'s
insertion owe to `b`, in order and each exactly once. -/
theorem delivery_exact (hrun : Run (Fires (step maxClients)) Server.init trace s)
    (hdistinct : DistinctJoins (history maxClients trace)) (hreliable : ∀ p ∈ trace, Reliable p.2)
    (hab : a ≠ b) (ha : Event.join a name ∈ history maxClients trace)
    (hb : s.serving b = some other) :
    messagesFrom name (sentTo b (history maxClients trace)) ++ messagesFrom name (s.task b).queue =
      owedBy a name other (sinceInsertion b (history maxClients trace)) := by
  refine delivery_of_onlyReader hrun hab hdistinct hreliable (fun t n h => ?_) hb
  constructor
  · intro heq
    subst heq
    exact hdistinct t a n h ha
  · intro heq
    subst heq
    exact join_unique hrun h ha

/-- A broadcast that is being written and a DM that is still queued. -/
theorem delivery_exact_queued :
    ∃ trace s, Run (Fires (step 2)) Server.init trace s ∧
      messagesFrom "a" (s.task 1).queue = [.message "a" "second"] ∧
      messagesFrom "a" (sentTo 1 (history 2 trace)) ++ messagesFrom "a" (s.task 1).queue =
        owedBy 0 "a" "b" (sinceInsertion 1 (history 2 trace)) := by
  have start : Run (Fires (step 2)) Server.init [] Server.init := .nil
  have joined := (((((start.fire (.accept 0) rfl).fire (.recv 0 (.msg (.join "a")) []) rfl).fire
    (.wrote 0 true) rfl).fire (.accept 1) rfl).fire (.recv 1 (.msg (.join "b")) []) rfl).fire
    (.wrote 1 true) rfl
  have hrun := ((joined.fire (.recv 0 (.msg (.broadcast "first")) [("a", 0), ("b", 1)]) rfl).fire
    (.recv 0 (.msg (.sendDM "b" "second")) [("a", 0), ("b", 1)]) rfl).fire (.dequeue 1) rfl
  have hjoin : ∀ {t name}, Event.join t name ∈
      [Event.join 0 "a", .send 0 .welcome, .inserted 0 "a", .join 1 "b", .send 1 .welcome,
        .inserted 1 "b", .request 0 (.broadcast "first"), .request 0 (.sendDM "b" "second"),
        .send 1 (.message "a" "first")] → t = if name = "a" then 0 else 1 := by
    intro t name h
    simp only [List.mem_cons, Event.join.injEq, reduceCtorEq, List.not_mem_nil, or_false,
      false_or] at h
    rcases h with ⟨rfl, rfl⟩ | ⟨rfl, rfl⟩ <;> rfl
  refine ⟨_, _, hrun, by decide, delivery_exact hrun ?_ ?_ (by decide) (by decide) rfl⟩
  · exact fun t u name ht hu => (hjoin ht).trans (hjoin hu).symm
  · intro p hp
    simp only [List.nil_append, List.cons_append, List.mem_cons, List.not_mem_nil, or_false] at hp
    rcases hp with rfl | rfl | rfl | rfl | rfl | rfl | rfl | rfl | rfl <;> simp [Reliable]

end RustCourse.Lesson10
