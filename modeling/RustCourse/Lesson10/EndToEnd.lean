import RustCourse.Chat.Json
import RustCourse.Lesson10.Wire

/-!
# From client to client

The whole way of a message in lesson 10: the client writes its requests with a
`MessageWriter`, they arrive in any pieces, a handler reads them in polls that may be
dropped, its requests go through the queues of others, whose handlers write what they take
out piece by piece, and a client reads that with a `MessageReader`, again in any pieces.

Both ends are about the bytes (`taken_of_run`, `written_of_run`), and what is between them is
the server of messages.  `reads_in_streams` joins the ends to the chat room, and
`client_to_client` joins them to each other: what one client has written for another one is
read there, in order, each message once.
-/

namespace RustCourse.Lesson10

open Chat Groups Transition Codec Lines

/-! ## A client that reads -/

section Reads

variable {T : Type*}

/-- The message can be sent with a `MessageWriter` and read with a `MessageReader`. -/
structure Readable (encode : T → List UInt8) (decode : List UInt8 → Option T) (msg : T) : Prop where
  inverts : decode (encode msg) = some msg
  line : newline ∉ encode msg
  short : (encode msg).length ≤ 1023

/-- The messages among the outcomes of calls. -/
def messages (gots : List (MessageReader.Outcome T)) : List T :=
  gots.filterMap fun got => got.message

open MessageReader

variable {encode : T → List UInt8} {decode : List UInt8 → Option T} {msgs : List T}
  {text rest tail : List UInt8} {got : Outcome T} {gots : List (Outcome T)}

/-- A `recv` on the lines of `msgs` and a part of one more. -/
theorem decodes_of_front (hreadable : ∀ msg ∈ msgs, Readable encode decode msg)
    (htail : newline ∉ tail) (hshort : tail.length ≤ 1023)
    (h : Answers decode (unlines newline (msgs.map encode) ++ tail) got rest) :
    Decodes (fun msgs => unlines newline (msgs.map encode) ++ tail) Outcome.msg .eof
      (fun got => !got.completed) msgs got rest := by
  cases msgs with
  | nil =>
      simp only [List.map_nil, unlines_nil, List.nil_append] at h
      cases h with
      | dropped => exact .idles rfl
      | eof => exact .done
      | msg hmem | malformed hmem => exact absurd hmem htail
      -- the tail has no end of a line, and it fits
      | panicked hfull =>
          rw [firstLine_of_notMem htail, bufferSize] at hfull
          omega
  | cons msg more =>
      obtain ⟨hinverts, hline, hlength⟩ := hreadable msg (by simp)
      have htext : unlines newline ((msg :: more).map encode) ++ tail =
          encode msg ++ newline :: (unlines newline (more.map encode) ++ tail) := by simp
      rw [htext] at h
      cases h with
      | dropped =>
          rw [← htext]
          exact .idles rfl
      | msg _ hdecode =>
          rw [firstLine_line hline, hinverts, Option.some.injEq] at hdecode
          rw [afterLine_line hline, ← hdecode]
          exact .item
      | malformed _ hdecode =>
          rw [firstLine_line hline, hinverts] at hdecode
          cases hdecode
      | panicked hfull =>
          rw [firstLine_line hline, bufferSize] at hfull
          omega
      | eof hmem => exact absurd (by simp) hmem

@[simp] theorem messages_append (first second : List (Outcome T)) :
    messages (first ++ second) = messages first ++ messages second :=
  List.filterMap_append ..

private theorem messages_map (msgs : List T) : messages (msgs.map Outcome.msg) = msgs := by
  simp [messages, List.filterMap_map, Outcome.message]

private theorem messages_completed (gots : List (Outcome T)) :
    messages (gots.filter Outcome.completed) = messages gots := by
  rw [messages, List.filterMap_filter]
  refine List.filterMap_congr fun got _ => ?_
  cases got <;> rfl

/-- What there is in calls that return messages in order, and then `None`. -/
theorem messages_of_initial {k : ℕ}
    (h : gots.filter Outcome.completed <+: msgs.map Outcome.msg ++ List.replicate k Outcome.eof) :
    messages gots <+: msgs ∧ (.eof ∈ gots → messages gots = msgs) ∧
      ∀ got ∈ gots, got = .dropped ∨ got = .eof ∨ ∃ msg, got = .msg msg := by
  have hall : messages (msgs.map Outcome.msg ++ List.replicate k Outcome.eof) = msgs := by
    rw [messages_append, messages_map]
    simp [messages, Outcome.message]
  have hfront : messages gots <+: msgs := by
    have hmessages := h.filterMap fun got => got.message
    rwa [← messages, ← messages, hall, messages_completed] at hmessages
  refine ⟨hfront, fun heof => ?_, fun got hgot => ?_⟩
  · have hlonger : msgs.map Outcome.msg <+: gots.filter Outcome.completed := by
      refine (List.prefix_or_prefix_of_prefix (List.prefix_append _ _) h).resolve_right ?_
      intro hshorter
      have hmem := hshorter.subset (List.mem_filter.mpr ⟨heof, rfl⟩)
      simp at hmem
    have hmessages := hlonger.filterMap fun got => got.message
    rw [← messages, ← messages, messages_map, messages_completed] at hmessages
    exact hfront.eq_of_length_le hmessages.length_le
  · cases hcompleted : got.completed with
    | false =>
        cases got <;> first | exact .inl rfl | cases hcompleted
    | true =>
        have hmem := h.subset (List.mem_filter.mpr ⟨hgot, hcompleted⟩)
        rw [List.mem_append, List.mem_map] at hmem
        rcases hmem with ⟨msg, -, rfl⟩ | hmem
        · exact .inr (.inr ⟨msg, rfl⟩)
        · exact .inr (.inl (List.eq_of_mem_replicate hmem))

/-- **Reading the front of some lines**: however it arrives and whichever calls are dropped,
the calls return the first messages, and all of them once there is a `None` behind whole
lines. -/
theorem reads_front (h : text <+: unlines newline (msgs.map encode))
    (hreadable : ∀ msg ∈ msgs, Readable encode decode msg) {calls : List (List Delivery)}
    {r : MessageReader} {unread : List UInt8}
    (hcalls : recvAll decode deliver calls .new text = some (gots, r, unread)) :
    messages gots <+: msgs ∧
      (.eof ∈ gots → text = unlines newline (msgs.map encode) → messages gots = msgs) ∧
      ∀ got ∈ gots, got = .dropped ∨ got = .eof ∨ ∃ msg, got = .msg msg := by
  obtain ⟨k, tail, htext, htail, hmax⟩ := exists_take_unlines h
  rw [← List.map_take] at htext
  have hpart : newline ∉ tail ∧ tail.length ≤ 1023 := by
    rcases htail with rfl | ⟨line, hline, hinitial⟩
    · exact ⟨List.not_mem_nil, Nat.zero_le _⟩
    · obtain ⟨msg, hmsg, rfl⟩ := List.mem_map.mp hline
      have hmsg := hreadable msg hmsg
      exact ⟨fun hmem => hmsg.line (hinitial.subset hmem), hinitial.length_le.trans hmsg.short⟩
  have hread := calls_of_recvAll hcalls
  rw [htext] at hread
  have hinitial := hread.filter_prefix (fun msgs => unlines newline (msgs.map encode) ++ tail)
    Outcome.msg .eof (fun got => !got.completed)
    (fun msg hmsg => hreadable msg (List.mem_of_mem_take hmsg)) (fun _ => rfl) rfl
    fun _ _ _ hreadable hanswer => decodes_of_front hreadable hpart.1 hpart.2 hanswer
  simp only [Bool.not_not] at hinitial
  obtain ⟨hfront, heof, hkinds⟩ := messages_of_initial hinitial
  refine ⟨hfront.trans (List.take_prefix _ _), fun hdone hwhole => ?_, hkinds⟩
  have hk := hmax (msgs.map encode).length le_rfl (by rw [List.take_length, hwhole])
  rw [heof hdone, List.take_of_length_le (by simpa using hk)]

end Reads

/-! ## A client that writes -/

/-- What the handler of a client has received that writes `msgs` with a `MessageWriter`. -/
theorem Taken.received {decode : List UInt8 → Option ClientToServerMsg} {w : Wire} {t : TaskId}
    {bytes : List UInt8} {received : List ClientToServerMsg} {lines : List (List UInt8)}
    (h : Taken decode w t bytes received lines) {encode : ClientToServerMsg → List UInt8}
    {msgs : List ClientToServerMsg} (hclient : bytes <+: sendAll encode msgs)
    (hinverts : ∀ msg ∈ msgs, decode (encode msg) = some msg)
    (hline : ∀ msg ∈ msgs, newline ∉ encode msg) :
    received <+: msgs ∧ ((w.reader t).loaded ++ (w.inbound t).unread = [] →
      bytes = sendAll encode msgs → received = msgs) := by
  have hlines : ∀ line ∈ msgs.map encode, newline ∉ line := by
    rintro _ hmem
    obtain ⟨msg, hmsg, rfl⟩ := List.mem_map.mp hmem
    exact hline msg hmsg
  -- the lines that were taken are lines of messages, which they decode to
  have hmsgs : ∀ n, lines = (msgs.map encode).take n → received = msgs.take n := by
    rintro n rfl
    apply (Option.some_injective _).list_map
    rw [← h.msgs, ← List.map_take, List.map_map]
    exact List.map_congr_left fun msg hmsg => hinverts msg (List.mem_of_mem_take hmsg)
  rw [sendAll_eq, h.bytes] at hclient
  have hfront := lines_of_unlines h.lines hlines hclient
  refine ⟨?_, fun hempty hall => ?_⟩
  · rw [hmsgs _ (List.prefix_iff_eq_take.mp hfront)]
    exact List.take_prefix _ _
  · rw [h.bytes, hempty, List.append_nil, sendAll_eq] at hall
    have hback : unlines newline (msgs.map encode) ++ [] <+: unlines newline lines := by
      rw [hall, List.append_nil]
    have heq := hfront.eq_of_length_le (lines_of_unlines hlines h.lines hback).length_le
    rw [hmsgs msgs.length (by rw [heq, ← List.length_map (f := encode), List.take_length]),
      List.take_length]

/-- The requests of the client of task `a` that `react_client_msg` was called with. -/
def requestsOf (a : TaskId) (events : List Event) : List ClientToServerMsg :=
  events.filterMap fun
    | .request t msg => if t = a then some msg else none
    | _ => none

@[simp] theorem requestsOf_append (a : TaskId) (first second : List Event) :
    requestsOf a (first ++ second) = requestsOf a first ++ requestsOf a second :=
  List.filterMap_append ..

private theorem owedBy_eq (a : TaskId) (name other : String) (events : List Event) :
    owedBy a name other events = (requestsOf a events).flatMap (owes name other) := by
  induction events with
  | nil => rfl
  | cons event rest ih =>
      rw [← List.singleton_append, owedBy_append, requestsOf_append, List.flatMap_append, ih]
      congr 1
      rcases event with _ | _ | ⟨t, msg⟩ | _ <;> try rfl
      by_cases hta : t = a <;> simp [owedBy, requestsOf, hta]

section Server

variable {maxClients : ℕ} {trace : List (Server × Label)} {s s' : Server} {l : Label} {a : TaskId}

private theorem requestsOf_eq_nil {events : List Event} (h : ∀ msg, Event.request a msg ∉ events) :
    requestsOf a events = [] := by
  rw [requestsOf, List.filterMap_eq_nil_iff]
  rintro (_ | _ | ⟨t, msg⟩ | _) hmem <;> try rfl
  have hne : t ≠ a := by
    rintro rfl
    exact h msg hmem
  simp [hne]

private theorem requestsOf_observe (hstep : step maxClients s l = some s')
    (hl : ∀ msg order, l ≠ .recv a (.msg msg) order) :
    requestsOf a (observe maxClients s l) = [] := by
  refine requestsOf_eq_nil fun msg hmem => ?_
  obtain ⟨-, order, hrecv⟩ := of_mem_request hstep hmem
  exact hl msg order hrecv

/-- A request that a handler processes is observed. -/
theorem requestsOf_receiving {name : String} {msg : ClientToServerMsg}
    {order : List (String × TaskId)} (hphase : (s.task a).phase = .receiving name) :
    requestsOf a (observe maxClients s (.recv a (.msg msg) order)) = [msg] := by
  have hsend : requestsOf a (sendEvent maxClients s (.recv a (.msg msg) order) a) = [] := by
    unfold sendEvent
    split
    · next s' _ => cases (s'.task a).phase.writing <;> rfl
    · rfl
  have hevents : observe maxClients s (.recv a (.msg msg) order) =
      [.request a msg] ++ sendEvent maxClients s (.recv a (.msg msg) order) a := by
    cases msg <;> simp [observe, hphase]
  rw [hevents, requestsOf_append, hsend]
  simp [requestsOf]

/-- The first message that a task receives is its `Join`, the others are its requests. -/
structure Heard (a : TaskId) (events : List Event) (received : List ClientToServerMsg)
    (phase : Phase) : Prop where
  requests : received.tail = requestsOf a events
  unheard : phase.stage ≤ 1 → received = []
  joined : ∀ name, Event.join a name ∈ events → received.head? = some (.join name)

theorem heard_of_run (hrun : Run (Fires (step maxClients)) Server.init trace s) (a : TaskId) :
    Heard a (history maxClients trace) (receivedBy a trace) (s.task a).phase := by
  refine hrun.invariantTrace (I := fun trace s =>
    Heard a (history maxClients trace) (receivedBy a trace) (s.task a).phase) ?_ ?_
  · exact ⟨rfl, fun _ => rfl, fun name hname => by simp [history] at hname⟩
  · intro trace s l s' hrun h hstep
    rw [history_snoc, receivedBy_append]
    have hstage := stage_le_of_moved (moved_of_step hstep) a
    by_cases hl : ∃ msg order, l = .recv a (.msg msg) order
    · obtain ⟨msg, order, rfl⟩ := hl
      rw [receivedBy_msg, if_pos rfl]
      cases hphase : (s.task a).phase with
      | joining =>
          -- the first message of the client
          have hnothing : receivedBy a trace = [] := h.unheard (by simp [hphase, Phase.stage])
          have hquiet : requestsOf a (observe maxClients s (.recv a (.msg msg) order)) = [] := by
            refine requestsOf_eq_nil fun request hmem => ?_
            obtain ⟨⟨name, hreceiving⟩, -⟩ := of_mem_request hstep hmem
            rw [hphase] at hreceiving
            cases hreceiving
          have hrequests := h.requests
          rw [hnothing] at hrequests ⊢
          refine ⟨?_, fun hearly => ?_, fun name hname => ?_⟩
          · rw [requestsOf_append, hquiet, ← hrequests]
            rfl
          · have hlate := joinClient_stage s.clients (.msg msg)
            simp only [Fires, step, hphase, Option.some.injEq] at hstep
            rw [← hstep] at hearly
            simp only [Server.setPhase_task, if_true] at hearly
            omega
          · rcases List.mem_append.mp hname with hold | hnew
            · have hhead := h.joined name hold
              rw [hnothing] at hhead
              cases hhead
            · obtain ⟨-, _, hl⟩ := of_mem_join hstep hnew
              cases hl
              rfl
      | receiving name =>
          have hjoin : Event.join a name ∈ history maxClients trace :=
            join_of_serving hrun (by simp [Server.serving, hphase, Phase.serving])
          obtain ⟨rest, hrest⟩ := List.head?_eq_some_iff.mp (h.joined name hjoin)
          have hrequests := h.requests
          rw [hrest, List.tail_cons] at hrequests
          refine ⟨?_, fun hearly => ?_, fun other hother => ?_⟩
          · rw [requestsOf_append, requestsOf_receiving hphase, ← hrequests, hrest]
            rfl
          · rw [hphase] at hstage
            exact absurd (hstage.trans hearly) (by simp [Phase.stage])
          · rcases List.mem_append.mp hother with hold | hnew
            · have hhead := h.joined other hold
              rw [hrest] at hhead ⊢
              exact hhead
            · obtain ⟨hjoining, -⟩ := of_mem_join hstep hnew
              rw [hphase] at hjoining
              cases hjoining
      | _ => simp [Fires, step, hphase] at hstep
    · have hl : ∀ msg order, l ≠ .recv a (.msg msg) order := by simpa using hl
      have hreceived : receivedBy a [(s, l)] = [] := by
        cases l with
        | recv t got order =>
            cases got with
            | msg msg =>
                have hne : t ≠ a := by
                  rintro rfl
                  exact hl msg order rfl
                simp [receivedBy_msg, hne]
            | _ => rfl
        | _ => rfl
      refine ⟨?_, fun hlate => ?_, fun name hname => ?_⟩
      · rw [hreceived, requestsOf_append, requestsOf_observe hstep hl, List.append_nil,
          List.append_nil]
        exact h.requests
      · rw [hreceived, List.append_nil]
        exact h.unheard (hstage.trans hlate)
      · rw [hreceived, List.append_nil]
        refine h.joined name ((List.mem_append.mp hname).resolve_right fun hnew => ?_)
        obtain ⟨-, order, rfl⟩ := of_mem_join hstep hnew
        exact hl _ order rfl

end Server

/-! ## The whole way -/

section EndToEnd

open MessageReader

variable {encode : ServerToClientMsg → List UInt8} {decode : List UInt8 → Option ClientToServerMsg}
  {encodeRequest : ClientToServerMsg → List UInt8}
  {decodeReply : List UInt8 → Option ServerToClientMsg} {maxClients : ℕ}
  {trace : List (Wire × Wire.Label)} {w : Wire} {a b : TaskId} {name other : String}
  {msgs : List ClientToServerMsg} {calls : List (List Delivery)}
  {gots : List (Outcome ServerToClientMsg)} {r : MessageReader} {unread : List UInt8}

/-- What the client of `b` reads of what has arrived. -/
theorem reads_of_run (hrun : Run (Fires (Wire.step encode decode maxClients)) Wire.init trace w)
    (hreadable : ∀ msg ∈ sentTo b (history maxClients (serverTrace decode trace)),
      Readable encode decodeReply msg) (arrived : ℕ)
    (hreads : recvAll decodeReply deliver calls .new ((w.sent b).take arrived) =
      some (gots, r, unread)) :
    messages gots <+: sentTo b (history maxClients (serverTrace decode trace)) ∧
      (.eof ∈ gots → (w.sent b).length ≤ arrived → (w.server.task b).phase.writing = none →
        (w.server.task b).phase ≠ .ended →
        messages gots = sentTo b (history maxClients (serverTrace decode trace))) ∧
      ∀ got ∈ gots, got = .dropped ∨ got = .eof ∨ ∃ msg, got = .msg msg := by
  have hwritten := written_of_run hrun b
  obtain ⟨hfront, hall, hkinds⟩ :=
    reads_front ((List.take_prefix _ _).trans hwritten.front) hreadable hreads
  refine ⟨hfront, fun heof harrived hidle hgoing => hall heof ?_, hkinds⟩
  rw [List.take_of_length_le harrived, (hwritten.idle hidle hgoing).1]

private theorem not_ended_of_serving (hb : w.server.serving b = some name) :
    (w.server.task b).phase ≠ .ended := by
  intro hended
  simp [Server.serving, hended, Phase.serving] at hb

/-- **Both ends of the chat room.**  In a run without a raced join and without a dropped
handler, where bytes arrive and are put on the connections in any pieces and polls are dropped
at any time: a client that writes with a `MessageWriter` is heard message for message, up to
what is still on its way; and a client in its loop that reads with a `MessageReader` what has
arrived gets messages and `None`, which are in streams the first of what is in the inbox of its
member, and all of it once nothing is on its way. -/
theorem reads_in_streams
    (hrun : Run (Fires (Wire.step encode decode maxClients)) Wire.init trace w)
    (horderly : ∀ p ∈ serverTrace decode trace, Orderly p.1 p.2)
    (hb : w.server.serving b = some name)
    (hreadable : ∀ msg ∈ sentTo b (history maxClients (serverTrace decode trace)),
      Readable encode decodeReply msg) (arrived : ℕ)
    (hreads : recvAll decodeReply deliver calls .new ((w.sent b).take arrived) =
      some (gots, r, unread)) :
    (∀ a encodeRequest msgs, bytesFrom a trace <+: sendAll encodeRequest msgs →
      (∀ msg ∈ msgs, decode (encodeRequest msg) = some msg) →
      (∀ msg ∈ msgs, newline ∉ encodeRequest msg) →
      receivedBy a (serverTrace decode trace) <+: msgs ∧
        ((w.reader a).loaded ++ (w.inbound a).unread = [] →
          bytesFrom a trace = sendAll encodeRequest msgs →
          receivedBy a (serverTrace decode trace) = msgs)) ∧
      (∀ got ∈ gots, got = .dropped ∨ got = .eof ∨ ∃ msg, got = .msg msg) ∧
      ((messages gots).map ServerToClientMsg.content).filter (fun content => !content.passedOn) <+:
        ((roomOf (serverTrace decode trace)).inbox name).filter
          (fun content => !content.passedOn) ∧
      ((messages gots).map ServerToClientMsg.content).filter Content.passedOn <+:
        ((roomOf (serverTrace decode trace)).inbox name).filter Content.passedOn ∧
      (.eof ∈ gots → (w.sent b).length ≤ arrived → (w.server.task b).phase.writing = none →
        (w.server.task b).queue = [] →
        InStreams ((messages gots).map ServerToClientMsg.content)
          ((roomOf (serverTrace decode trace)).inbox name)) := by
  have hstreams := (roomOf_of_run (run_of_wire hrun) horderly).2 b name hb
  obtain ⟨hfront, hall, hkinds⟩ := reads_of_run hrun hreadable arrived hreads
  have htold : (messages gots).map ServerToClientMsg.content <+:
      told (history maxClients (serverTrace decode trace)) w.server b :=
    (hfront.trans (List.prefix_append _ _)).map _
  refine ⟨fun a encodeRequest msgs hclient hinverts hline => ?_, hkinds, ?_, ?_,
    fun heof harrived hidle hempty => ?_⟩
  · obtain ⟨lines, htaken⟩ := taken_of_run hrun a
    exact htaken.received hclient hinverts hline
  · rw [← hstreams.answers]
    exact htold.filter _
  · rw [← hstreams.messages]
    exact htold.filter _
  · rw [hall heof harrived hidle (not_ended_of_serving hb)]
    simpa [told, hempty] using hstreams

/-- The steps in which the client of `t` joins, with its `Welcome` written in two pieces. -/
def joinSteps (t : TaskId) (name : String) : List Wire.Label :=
  [.server (.accept t), .sends t (sendAll ClientToServerMsg.toVec [.join name]),
    .polls t [.bytes 100] [], .puts t 4, .puts t 6, .server (.wrote t true)]

/-- A step that is seen to be `Orderly`: a handler finds its name free, no write fails and no
reader panics. -/
def orderly (p : Server × Lesson10.Label) : Bool :=
  match p.2 with
  | .wrote t ok =>
      match (p.1.task t).phase with
      | .welcoming name => ok && decide (name ∉ p.1.clients)
      | _ => ok
  | .refused ok => ok
  | .recv _ got _ => decide (got ≠ .panics)
  | _ => true

theorem orderly_sound {p : Server × Lesson10.Label} (h : orderly p = true) :
    Orderly p.1 p.2 := by
  obtain ⟨s, l⟩ := p
  cases l with
  | wrote t ok =>
      have hok : ok = true := by
        simp only [orderly] at h
        split at h <;> simp_all
      subst hok
      refine ⟨fun name hphase => ?_, not_drops_of_reliable rfl⟩
      replace hphase : (s.task t).phase = .welcoming name := hphase
      simpa [orderly, hphase] using h
  | refused ok => exact ⟨trivial, not_drops_of_reliable h⟩
  | recv t got order =>
      exact ⟨trivial, not_drops_of_reliable (by simpa [orderly, Reliable] using h)⟩
  | accept | reap | stop | timeout | dequeue => exact ⟨trivial, not_drops_of_reliable trivial⟩

/-- A client sends a ping in two pieces, and another one sends it a message in between, which
is forwarded after the reply.  The first one reads both. -/
theorem reads_in_streams_pong :
    ∃ trace w, Run (Fires (Wire.step ServerToClientMsg.toVec
        (readBack ClientToServerMsg.toVec [.join "a", .join "b", .ping, .sendDM "a" "hi"]) 2))
        Wire.init trace w ∧
      receivedBy 0 (serverTrace (readBack ClientToServerMsg.toVec
        [.join "a", .join "b", .ping, .sendDM "a" "hi"]) trace) = [.join "a", .ping] ∧
      receivedBy 1 (serverTrace (readBack ClientToServerMsg.toVec
        [.join "a", .join "b", .ping, .sendDM "a" "hi"]) trace) =
          [.join "b", .sendDM "a" "hi"] ∧
      InStreams [.welcome, .pong, .message "b" "hi"] ((roomOf (serverTrace (readBack
        ClientToServerMsg.toVec [.join "a", .join "b", .ping, .sendDM "a" "hi"]) trace)).inbox
          "a") := by
  -- both clients join; "b" sends a DM while "a" is in the middle of its ping
  let readRequest :=
    readBack ClientToServerMsg.toVec [.join "a", .join "b", .ping, .sendDM "a" "hi"]
  let replies : List ServerToClientMsg := [.welcome, .pong, .message "b" "hi"]
  obtain ⟨trace, w, hrun, hp⟩ := exists_run_of_replay
    (Wire.step ServerToClientMsg.toVec readRequest 2) Wire.init
    (joinSteps 0 "a" ++ joinSteps 1 "b" ++
      [.sends 0 ((sendAll ClientToServerMsg.toVec [.ping]).take 3),
        .polls 0 [.bytes 9, .pending] [],
        .sends 1 (sendAll ClientToServerMsg.toVec [.sendDM "a" "hi"]),
        .polls 1 [.bytes 100] [("a", 0), ("b", 1)],
        .sends 0 ((sendAll ClientToServerMsg.toVec [.ping]).drop 3),
        .polls 0 [.bytes 9] [("a", 0), ("b", 1)], .puts 0 7, .server (.wrote 0 true),
        .server (.dequeue 0), .puts 0 5, .puts 0 35, .server (.wrote 0 true)])
    (fun r => decide ((∀ p ∈ serverTrace readRequest r.1, orderly p = true) ∧
      sentTo 0 (history 2 (serverTrace readRequest r.1)) = replies ∧
      bytesFrom 0 r.1 = sendAll ClientToServerMsg.toVec [.join "a", .ping] ∧
      bytesFrom 1 r.1 = sendAll ClientToServerMsg.toVec [.join "b", .sendDM "a" "hi"] ∧
      (r.2.reader 0).loaded ++ (r.2.inbound 0).unread = [] ∧
      (r.2.reader 1).loaded ++ (r.2.inbound 1).unread = [] ∧
      r.2.server.serving 0 = some "a" ∧ (r.2.server.task 0).phase.writing = none ∧
      (r.2.server.task 0).queue = [] ∧ r.2.sent 0 = sendAll ServerToClientMsg.toVec replies))
    (by decide +kernel)
  obtain ⟨hsteps, htold, hbytes, hbytes', hempty, hempty', hserving, hwriting, hqueue, hsent⟩ :=
    of_decide_eq_true hp
  -- every reply can be read back
  have hreadable : ∀ msg ∈ sentTo 0 (history 2 (serverTrace readRequest trace)),
      Readable ServerToClientMsg.toVec (readBack ServerToClientMsg.toVec replies) msg := by
    rw [htold]
    intro msg hmsg
    simp only [replies, List.mem_cons, List.not_mem_nil, or_false] at hmsg
    rcases hmsg with rfl | rfl | rfl <;> exact ⟨by decide, by decide, by decide⟩
  -- a client that reads the front of the reply and drops that call, and then the rest
  have hreads : MessageReader.recvAll (readBack ServerToClientMsg.toVec replies) deliver
      [[.bytes 4, .drop], [.bytes 100], [], [], [.bytes 1]] .new ((w.sent 0).take 60) =
        some ([.dropped, .msg .welcome, .msg .pong, .msg (.message "b" "hi"), .eof], .new, []) := by
    rw [hsent]
    decide +kernel
  obtain ⟨hreceives, -, -, -, hall⟩ := reads_in_streams hrun
    (fun p hp => orderly_sound (hsteps p hp)) hserving hreadable 60 hreads
  refine ⟨trace, w, hrun, ?_, ?_, hall (by decide) ?_ hwriting hqueue⟩
  · exact (hreceives 0 ClientToServerMsg.toVec [.join "a", .ping] (by rw [hbytes]) (by decide)
      (by decide)).2 hempty hbytes
  · exact (hreceives 1 ClientToServerMsg.toVec [.join "b", .sendDM "a" "hi"] (by rw [hbytes'])
      (by decide) (by decide)).2 hempty' hbytes'
  · rw [hsent]
    decide

/-! ## From one client to another -/

/-- **From client to client.**  In a run with distinct names, without failed writes and
without panics, let the client of `a` write with a `MessageWriter`, and the client of `b`, who
is in its loop, read with a `MessageReader` what has arrived.  The handler of `a` processes
what the client has written, message for message.  And `b` reads from `a` what the requests
since the insertion of `b` owe to it, in order and each message once, up to what is still on
its way. -/
theorem client_to_client
    (hrun : Run (Fires (Wire.step encode decode maxClients)) Wire.init trace w)
    (hdistinct : DistinctJoins (history maxClients (serverTrace decode trace)))
    (hreliable : ∀ p ∈ serverTrace decode trace, Reliable p.2) (hab : a ≠ b)
    (ha : Event.join a name ∈ history maxClients (serverTrace decode trace))
    (hclient : bytesFrom a trace <+: sendAll encodeRequest msgs)
    (hinverts : ∀ msg ∈ msgs, decode (encodeRequest msg) = some msg)
    (hline : ∀ msg ∈ msgs, newline ∉ encodeRequest msg)
    (hb : w.server.serving b = some other)
    (hreadable : ∀ msg ∈ sentTo b (history maxClients (serverTrace decode trace)),
      Readable encode decodeReply msg) (arrived : ℕ)
    (hreads : recvAll decodeReply deliver calls .new ((w.sent b).take arrived) =
      some (gots, r, unread)) :
    .join name :: requestsOf a (history maxClients (serverTrace decode trace)) <+: msgs ∧
      ((w.reader a).loaded ++ (w.inbound a).unread = [] →
        bytesFrom a trace = sendAll encodeRequest msgs →
        .join name :: requestsOf a (history maxClients (serverTrace decode trace)) = msgs) ∧
      messagesFrom name (messages gots) <+:
        (requestsOf a (sinceInsertion b (history maxClients (serverTrace decode trace)))).flatMap
          (owes name other) ∧
      (.eof ∈ gots → (w.sent b).length ≤ arrived → (w.server.task b).phase.writing = none →
        (w.server.task b).queue = [] →
        messagesFrom name (messages gots) =
          (requestsOf a (sinceInsertion b (history maxClients
            (serverTrace decode trace)))).flatMap (owes name other)) := by
  have hserver := run_of_wire hrun
  obtain ⟨hfront, hall, -⟩ := reads_of_run hrun hreadable arrived hreads
  obtain ⟨lines, htaken⟩ := taken_of_run hrun a
  obtain ⟨hreceived, hcomplete⟩ := htaken.received hclient hinverts hline
  have hheard := heard_of_run hserver a
  obtain ⟨rest, hrest⟩ := List.head?_eq_some_iff.mp (hheard.joined name ha)
  have hmessages : receivedBy a (serverTrace decode trace) =
      .join name :: requestsOf a (history maxClients (serverTrace decode trace)) := by
    rw [← hheard.requests, hrest]
    rfl
  have honly : OnlyReader a name (history maxClients (serverTrace decode trace)) := by
    intro t joined hjoin
    constructor
    · rintro rfl
      exact hdistinct t a joined hjoin ha
    · rintro rfl
      exact join_unique hserver hjoin ha
  have hdelivery := delivery_of_onlyReader hserver hab hdistinct hreliable honly hb
  rw [owedBy_eq] at hdelivery
  rw [← hmessages, ← hdelivery]
  refine ⟨hreceived, hcomplete, ?_, fun heof harrived hidle hempty => ?_⟩
  · exact (hfront.filter _).trans (List.prefix_append _ _)
  · rw [hall heof harrived hidle (not_ended_of_serving hb), hempty, messagesFrom_nil,
      List.append_nil]

/-- A DM that arrives in two pieces, is put on the connection in two pieces, and is read in
calls of which one is dropped. -/
theorem client_to_client_two :
    ∃ trace w, Run (Fires (Wire.step ServerToClientMsg.toVec
        (readBack ClientToServerMsg.toVec [.join "a", .join "b", .sendDM "b" "hi"]) 2))
        Wire.init trace w ∧
      requestsOf 0 (history 2 (serverTrace
        (readBack ClientToServerMsg.toVec [.join "a", .join "b", .sendDM "b" "hi"]) trace)) =
        [.sendDM "b" "hi"] ∧
      [.message "a" "hi"] = (requestsOf 0 (sinceInsertion 1 (history 2 (serverTrace
        (readBack ClientToServerMsg.toVec [.join "a", .join "b", .sendDM "b" "hi"])
        trace)))).flatMap (owes "a" "b") := by
  -- both clients join, and a request of "a" arrives in two pieces
  let readRequest := readBack ClientToServerMsg.toVec [.join "a", .join "b", .sendDM "b" "hi"]
  obtain ⟨trace, w, hrun, hp⟩ := exists_run_of_replay
    (Wire.step ServerToClientMsg.toVec readRequest 2) Wire.init
    (joinSteps 0 "a" ++ joinSteps 1 "b" ++
      [.sends 0 ((sendAll ClientToServerMsg.toVec [.sendDM "b" "hi"]).take 7),
        .polls 0 [.bytes 9, .pending] [],
        .sends 0 ((sendAll ClientToServerMsg.toVec [.sendDM "b" "hi"]).drop 7),
        .polls 0 [.bytes 100] [("a", 0), ("b", 1)], .server (.dequeue 1), .puts 1 5, .puts 1 35,
        .server (.wrote 1 true)])
    (fun r => decide ((serverTrace readRequest r.1).map Prod.snd =
        [.accept 0, .recv 0 (.msg (.join "a")) [], .wrote 0 true, .accept 1,
          .recv 1 (.msg (.join "b")) [], .wrote 1 true,
          .recv 0 (.msg (.sendDM "b" "hi")) [("a", 0), ("b", 1)], .dequeue 1, .wrote 1 true] ∧
      history 2 (serverTrace readRequest r.1) = [.join 0 "a", .send 0 .welcome,
        .inserted 0 "a", .join 1 "b", .send 1 .welcome, .inserted 1 "b",
        .request 0 (.sendDM "b" "hi"), .send 1 (.message "a" "hi")] ∧
      bytesFrom 0 r.1 = sendAll ClientToServerMsg.toVec [.join "a", .sendDM "b" "hi"] ∧
      (r.2.reader 0).loaded ++ (r.2.inbound 0).unread = [] ∧
      r.2.server.serving 1 = some "b" ∧ (r.2.server.task 1).phase.writing = none ∧
      (r.2.server.task 1).queue = [] ∧
      r.2.sent 1 = sendAll ServerToClientMsg.toVec [.welcome, .message "a" "hi"]))
    (by decide +kernel)
  obtain ⟨hlabels, hevents, hbytes, hempty, hserving, hwriting, hqueue, hsent⟩ :=
    of_decide_eq_true hp
  have hjoin : ∀ {t name}, Event.join t name ∈ history 2 (serverTrace readRequest trace) →
      t = if name = "a" then 0 else 1 := by
    intro t name h
    simp only [hevents, List.mem_cons, Event.join.injEq, reduceCtorEq, List.not_mem_nil, or_false,
      false_or] at h
    rcases h with ⟨rfl, rfl⟩ | ⟨rfl, rfl⟩ <;> rfl
  -- no write fails, no name is used twice
  have hreliable : ∀ p ∈ serverTrace readRequest trace, Reliable p.2 := by
    rintro ⟨s, l⟩ hmem
    have hl : l ∈ (serverTrace readRequest trace).map Prod.snd := List.mem_map_of_mem hmem
    simp only [hlabels, List.mem_cons, List.not_mem_nil, or_false] at hl
    rcases hl with rfl | rfl | rfl | rfl | rfl | rfl | rfl | rfl | rfl <;> simp [Reliable]
  have hreadable : ∀ msg ∈ sentTo 1 (history 2 (serverTrace readRequest trace)),
      Readable ServerToClientMsg.toVec
        (readBack ServerToClientMsg.toVec [.welcome, .message "a" "hi"]) msg := by
    intro msg hmsg
    rw [hevents] at hmsg
    simp only [sentTo, List.filterMap_cons, List.filterMap_nil, if_true, if_false,
      Nat.zero_ne_one, List.mem_cons, List.not_mem_nil, or_false] at hmsg
    rcases hmsg with rfl | rfl <;> exact ⟨by decide, by decide, by decide⟩
  have hreads : MessageReader.recvAll
      (readBack ServerToClientMsg.toVec [.welcome, .message "a" "hi"]) deliver
      [[.bytes 4, .drop], [.bytes 100], [], [.bytes 1]] .new ((w.sent 1).take 50) =
        some ([.dropped, .msg .welcome, .msg (.message "a" "hi"), .eof], .new, []) := by
    rw [hsent]
    decide +kernel
  have hjoined : Event.join 0 "a" ∈ history 2 (serverTrace readRequest trace) := by simp [hevents]
  have hclient : bytesFrom 0 trace <+:
      sendAll ClientToServerMsg.toVec [.join "a", .sendDM "b" "hi"] := by rw [hbytes]
  obtain ⟨-, hall, -, hread⟩ := client_to_client hrun
    (fun t u name ht hu => (hjoin ht).trans (hjoin hu).symm) hreliable Nat.zero_ne_one hjoined
    hclient (by decide) (by decide) hserving hreadable 50 hreads
  refine ⟨trace, w, hrun, ?_, hread (by decide) ?_ hwriting hqueue⟩
  · exact (List.cons_eq_cons.mp (hall hempty hbytes)).2
  · rw [hsent]
    decide

end EndToEnd

end RustCourse.Lesson10
