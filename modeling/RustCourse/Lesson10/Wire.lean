import RustCourse.Lesson10.Reader
import RustCourse.Lesson10.Room

/-!
# The lesson 10 server on the wire

A label of the server tells what `reader.recv()` yields and when a write ends.  Here the
connections carry bytes: a client puts what it likes on its connection, in pieces, and may
close it; a handler polls its `MessageReader`, which takes some of what has arrived; and what
a handler writes gets on the connection in pieces (`Wire.step`).

`select!` polls `reader.recv()` next to another future and drops it when that one is ready.
A `recv` that is pending keeps nothing but the bytes in the buffer, so it does not matter
whether it is polled again or dropped and called anew: a poll is a call of `recv`, and a
pending one ends like one that is dropped.

The steps of the server in a run on the wire are a run of the server (`run_of_wire`).  What
its handlers receive are the messages in the first lines of what their clients sent
(`taken_of_run`), and what is on a connection is the front of the lines of what the handler
told its client (`written_of_run`).
-/

namespace RustCourse.Lesson10

open Chat Transition Lines Function

/-! ## Connections -/

/-- The direction of a connection in which the client sends. -/
structure Inbound where
  /-- what was sent and not read -/
  unread : List UInt8
  /-- the client sends no more -/
  closed : Bool
  deriving DecidableEq, Repr

/-- What becomes of a `client.read(buf)` when it is polled. -/
inductive Arrival
  /-- this many bytes are read, or as many as come closest to it -/
  | bytes (n : ℕ)
  | pending
  | fails
  deriving DecidableEq, Repr

/-- `client.read(buf)`; it is pending, too, when there is nothing to read yet. -/
def Inbound.read (client : Inbound) (free : ℕ) : Arrival → ReadOutcome free × Inbound
  | .bytes n =>
      if h : 0 < free ∧ 0 < client.unread.length then
        (.bytes (client.unread.take (amount free client.unread.length n))
            (length_take_amount h.1 h.2 n).1 (length_take_amount h.1 h.2 n).2,
          { client with unread := client.unread.drop (amount free client.unread.length n) })
      else if client.closed then (.eof, client)
      else (.dropped, client)
  | .pending => (.dropped, client)
  | .fails => (.err, client)

/-- The message that a `recv` returns. -/
def MessageReader.Outcome.message {T : Type*} : MessageReader.Outcome T → Option T
  | .msg read => some read
  | _ => none

/-- What the handler gets from a `recv`, unless it is pending. -/
def MessageReader.Outcome.received :
    MessageReader.Outcome ClientToServerMsg → Option Received
  | .msg request => some (.msg request)
  | .malformed | .err => some .err
  | .eof => some .eof
  | .panicked => some .panics
  | .dropped => none

/-- The task is suspended in a `select!` that polls `reader.recv()`. -/
def Phase.reading : Phase → Bool
  | .joining | .receiving _ => true
  | _ => false

/-- What one `writer.send` puts on the connection. -/
def lineOf (encode : ServerToClientMsg → List UInt8) (msg : ServerToClientMsg) : List UInt8 :=
  MessageWriter.send encode [] msg

/-- The server, and the bytes on the wire. -/
structure Wire where
  server : Server
  reader : TaskId → MessageReader
  inbound : TaskId → Inbound
  /-- what was put on the connection of the client -/
  sent : TaskId → List UInt8
  /-- how much of the line under way was put there -/
  progress : TaskId → ℕ

namespace Wire

/-- Nothing is on the connections. -/
def init : Wire := ⟨.init, fun _ => .new, fun _ => ⟨[], false⟩, fun _ => [], fun _ => 0⟩

/-- A client or the server does something to a connection, or the server moves. -/
inductive Label
  /-- the client puts bytes on its connection -/
  | sends (t : TaskId) (bytes : List UInt8)
  /-- the client closes its connection -/
  | closes (t : TaskId)
  /-- `reader.recv()` is polled; iterating over the map goes in the given order -/
  | polls (t : TaskId) (arrivals : List Arrival) (order : List (String × TaskId))
  /-- the write the task is suspended in puts `n` bytes more on the connection -/
  | puts (t : TaskId) (n : ℕ)
  /-- any other step of the server -/
  | server (l : Lesson10.Label)
  deriving DecidableEq, Repr

/-- What the server does in a poll of `reader.recv()`. -/
def receive (maxClients : ℕ) (s : Server) (t : TaskId) (order : List (String × TaskId))
    (outcome : MessageReader.Outcome ClientToServerMsg) : Option Server :=
  match outcome.received with
  | some got => Lesson10.step maxClients s (.recv t got order)
  | none => some s

/-- A write ends well when its line is on the connection, and may fail at any time. -/
def step (encode : ServerToClientMsg → List UInt8) (decode : List UInt8 → Option ClientToServerMsg)
    (maxClients : ℕ) (w : Wire) : Label → Option Wire
  | .sends t bytes =>
      if (w.inbound t).closed then none
      else some { w with inbound := update w.inbound t ⟨(w.inbound t).unread ++ bytes, false⟩ }
  | .closes t => some { w with inbound := update w.inbound t ⟨(w.inbound t).unread, true⟩ }
  | .polls t arrivals order =>
      if (w.server.task t).phase.reading then
        match MessageReader.recv decode Inbound.read arrivals (w.reader t) (w.inbound t) with
        | some (outcome, reader, client) =>
            (receive maxClients w.server t order outcome).map fun server =>
              { w with
                server
                reader := update w.reader t reader
                inbound := update w.inbound t client }
        | none => none
      else none
  | .puts t n =>
      match (w.server.task t).phase.writing with
      | some msg =>
          if w.progress t + n ≤ (lineOf encode msg).length then
            some
              { w with
                sent := update w.sent t
                  (w.sent t ++ ((lineOf encode msg).drop (w.progress t)).take n)
                progress := update w.progress t (w.progress t + n) }
          else none
      | none => none
  | .server (.recv _ _ _) => none
  | .server (.wrote t ok) =>
      match (w.server.task t).phase.writing with
      | some msg =>
          if ok = true → w.progress t = (lineOf encode msg).length then
            (Lesson10.step maxClients w.server (.wrote t ok)).map fun server =>
              { w with server, progress := update w.progress t 0 }
          else none
      | none => none
  | .server l =>
      (Lesson10.step maxClients w.server l).map fun server => { w with server }

end Wire

/-- **What a step on the wire is.** -/
inductive Transmits (encode : ServerToClientMsg → List UInt8)
    (decode : List UInt8 → Option ClientToServerMsg) (maxClients : ℕ) (w : Wire) :
    Wire.Label → Wire → Prop
  | sends {t bytes} : (w.inbound t).closed = false →
      Transmits encode decode maxClients w (.sends t bytes)
        { w with inbound := update w.inbound t ⟨(w.inbound t).unread ++ bytes, false⟩ }
  | closes {t} : Transmits encode decode maxClients w (.closes t)
      { w with inbound := update w.inbound t ⟨(w.inbound t).unread, true⟩ }
  | pending {t arrivals order reader client} : (w.server.task t).phase.reading = true →
      MessageReader.recv decode Inbound.read arrivals (w.reader t) (w.inbound t) =
        some (.dropped, reader, client) →
      Transmits encode decode maxClients w (.polls t arrivals order)
        { w with
          reader := update w.reader t reader
          inbound := update w.inbound t client }
  | received {t arrivals order outcome got reader client server} :
      (w.server.task t).phase.reading = true →
      MessageReader.recv decode Inbound.read arrivals (w.reader t) (w.inbound t) =
        some (outcome, reader, client) →
      outcome.received = some got → step maxClients w.server (.recv t got order) = some server →
      Transmits encode decode maxClients w (.polls t arrivals order)
        { w with
          server
          reader := update w.reader t reader
          inbound := update w.inbound t client }
  | puts {t n msg} : (w.server.task t).phase.writing = some msg →
      w.progress t + n ≤ (lineOf encode msg).length →
      Transmits encode decode maxClients w (.puts t n)
        { w with
          sent := update w.sent t (w.sent t ++ ((lineOf encode msg).drop (w.progress t)).take n)
          progress := update w.progress t (w.progress t + n) }
  | wrote {t ok msg server} : (w.server.task t).phase.writing = some msg →
      (ok = true → w.progress t = (lineOf encode msg).length) →
      step maxClients w.server (.wrote t ok) = some server →
      Transmits encode decode maxClients w (.server (.wrote t ok))
        { w with server, progress := update w.progress t 0 }
  | server {l server} : (∀ t got order, l ≠ .recv t got order) → (∀ t ok, l ≠ .wrote t ok) →
      step maxClients w.server l = some server →
      Transmits encode decode maxClients w (.server l) { w with server }

variable {encode : ServerToClientMsg → List UInt8} {decode : List UInt8 → Option ClientToServerMsg}
  {maxClients : ℕ} {w w' : Wire} {l : Wire.Label} {trace : List (Wire × Wire.Label)} {t : TaskId}

private theorem received_eq_none {outcome : MessageReader.Outcome ClientToServerMsg}
    (h : outcome.received = none) : outcome = .dropped := by
  cases outcome <;> first | rfl | cases h

theorem transmits_of_step (h : w.step encode decode maxClients l = some w') :
    Transmits encode decode maxClients w l w' := by
  -- the branches of `Wire.step`, one by one
  cases l with
  | sends t bytes =>
      simp only [Wire.step] at h
      split at h <;> cases h
      next hopen => exact .sends (by simpa using hopen)
  | closes t =>
      cases h
      exact .closes
  | polls t arrivals order =>
      simp only [Wire.step] at h
      split at h
      · next hreading =>
          split at h
          · next outcome reader client hrecv =>
              obtain ⟨server, hserver, rfl⟩ := Option.map_eq_some_iff.mp h
              unfold Wire.receive at hserver
              split at hserver
              · next got hgot => exact .received hreading hrecv hgot hserver
              · next hgot =>
                  obtain rfl := received_eq_none hgot
                  cases hserver
                  exact .pending hreading hrecv
          · cases h
      · cases h
  | puts t n =>
      simp only [Wire.step] at h
      split at h
      · next msg hwriting =>
          split at h <;> cases h
          next hfits => exact .puts hwriting hfits
      · cases h
  | server l =>
      cases l with
      | recv t got order => cases h
      | wrote t ok =>
          simp only [Wire.step] at h
          split at h
          · next msg hwriting =>
              split at h
              · next hcomplete =>
                  obtain ⟨server, hserver, rfl⟩ := Option.map_eq_some_iff.mp h
                  exact .wrote hwriting hcomplete hserver
              · cases h
          · cases h
      | _ =>
          obtain ⟨server, hserver, rfl⟩ := Option.map_eq_some_iff.mp h
          exact .server (by simp) (by simp) hserver

/-! ## The server in a run on the wire -/

/-- The step of the server, if it is one. -/
def serverLabel (decode : List UInt8 → Option ClientToServerMsg) (w : Wire) :
    Wire.Label → Option Label
  | .polls t arrivals order =>
      (MessageReader.recv decode Inbound.read arrivals (w.reader t) (w.inbound t)).bind
        fun result => result.1.received.map fun got => .recv t got order
  | .server l => some l
  | _ => none

/-- The steps of the server in a run on the wire. -/
def serverTrace (decode : List UInt8 → Option ClientToServerMsg)
    (trace : List (Wire × Wire.Label)) : List (Server × Label) :=
  trace.filterMap fun p => (serverLabel decode p.1 p.2).map fun l => (p.1.server, l)

@[simp] theorem serverTrace_append (first second : List (Wire × Wire.Label)) :
    serverTrace decode (first ++ second) = serverTrace decode first ++ serverTrace decode second :=
  List.filterMap_append ..

theorem serverTrace_of_none (h : serverLabel decode w l = none) :
    serverTrace decode [(w, l)] = [] := by
  simp [serverTrace, h]

theorem serverTrace_of_some {l' : Label} (h : serverLabel decode w l = some l') :
    serverTrace decode [(w, l)] = [(w.server, l')] := by
  simp [serverTrace, h]

theorem serverLabel_of_recv {arrivals : List Arrival} {order : List (String × TaskId)}
    {outcome : MessageReader.Outcome ClientToServerMsg} {reader : MessageReader} {client : Inbound}
    (h : MessageReader.recv decode Inbound.read arrivals (w.reader t) (w.inbound t) =
      some (outcome, reader, client)) :
    serverLabel decode w (.polls t arrivals order) =
      outcome.received.map fun got => .recv t got order := by
  simp [serverLabel, h]

theorem serverLabel_of_received {arrivals : List Arrival} {order : List (String × TaskId)}
    {outcome : MessageReader.Outcome ClientToServerMsg} {reader : MessageReader} {client : Inbound}
    {got : Received}
    (h : MessageReader.recv decode Inbound.read arrivals (w.reader t) (w.inbound t) =
      some (outcome, reader, client)) (hgot : outcome.received = some got) :
    serverLabel decode w (.polls t arrivals order) = some (.recv t got order) := by
  rw [serverLabel_of_recv h, hgot]
  rfl

/-- A step on the wire is one of the server, or leaves the server alone. -/
theorem serverLabel_cases (h : Transmits encode decode maxClients w l w') :
    serverLabel decode w l = none ∧ w'.server = w.server ∨
      ∃ l', serverLabel decode w l = some l' ∧ step maxClients w.server l' = some w'.server := by
  cases h with
  | sends | closes | puts => exact .inl ⟨rfl, rfl⟩
  | pending _ hrecv => exact .inl ⟨serverLabel_of_recv hrecv, rfl⟩
  | received _ hrecv hgot hstep => exact .inr ⟨_, serverLabel_of_received hrecv hgot, hstep⟩
  | wrote _ _ hstep | server _ _ hstep => exact .inr ⟨_, rfl, hstep⟩

/-- **The steps of the server in a run on the wire are a run of the server.** -/
theorem run_of_wire (hrun : Run (Fires (Wire.step encode decode maxClients)) Wire.init trace w) :
    Run (Fires (step maxClients)) Server.init (serverTrace decode trace) w.server := by
  refine hrun.invariantTrace (I := fun trace w =>
    Run (Fires (step maxClients)) Server.init (serverTrace decode trace) w.server) .nil ?_
  intro trace w l w' _ hserver hstep
  rw [serverTrace_append]
  rcases serverLabel_cases (transmits_of_step hstep) with ⟨hlabel, hsame⟩ | ⟨l', hlabel, hstep⟩
  · rwa [serverTrace_of_none hlabel, hsame, List.append_nil]
  · rw [serverTrace_of_some hlabel]
    exact hserver.fire l' hstep

/-! ## What the handlers receive -/

section Poll

variable {T : Type*} {decode : List UInt8 → Option T} {r r' : MessageReader}
  {client client' : Inbound} {got : MessageReader.Outcome T} {arrivals : List Arrival}

open MessageReader

/-- The outcome of a poll is that of a call on the bytes, unless reading has failed. -/
theorem answers_of_poll
    (h : recv decode Inbound.read arrivals r client = some (got, r', client')) :
    Answers decode (r.loaded ++ client.unread) got (r'.loaded ++ client'.unread) ∨
      got = .err ∧ r'.loaded ++ client'.unread = r.loaded ++ client.unread := by
  -- by induction on the reads of the poll
  induction arrivals generalizing r client with
  | nil =>
      obtain ⟨result, hresult, heq⟩ := Option.map_eq_some_iff.mp h
      cases heq
      exact .inl (answers_of_inspect hresult)
  | cons arrival rest ih =>
      cases hinspect : r.inspect decode with
      | some result => simp [recv, hinspect] at h
      | none =>
          obtain ⟨hline, hroom⟩ := reads_of_inspect hinspect
          cases arrival with
          | pending =>
              simp only [recv, hinspect, Inbound.read] at h
              split at h <;> cases h
              exact .inl .dropped
          | fails =>
              simp only [recv, hinspect, Inbound.read] at h
              split at h <;> cases h
              exact .inr ⟨rfl, rfl⟩
          | bytes n =>
              by_cases hleft : 0 < client.unread.length
              · have hread : 0 < r.free ∧ 0 < client.unread.length := ⟨hroom, hleft⟩
                simp only [recv, hinspect, Inbound.read, hread, and_self, dif_pos] at h
                have hanswer := ih h
                rwa [load, List.append_assoc, List.take_append_drop] at hanswer
              -- nothing has arrived, so the read is pending or has found the end
              · have hempty := List.length_eq_zero_iff.mp (Nat.eq_zero_of_not_pos hleft)
                cases hclosed : client.closed <;>
                  simp only [recv, hinspect, Inbound.read, hleft, and_false, dif_neg,
                    not_false_eq_true, hclosed, if_true, if_false, Bool.false_eq_true] at h <;>
                  split at h <;> cases h
                · exact .inl .dropped
                · rw [hempty, List.append_nil]
                  exact .inl (.eof hline)

/-- A poll takes a line and yields its message, or takes nothing. -/
theorem line_of_poll
    (h : recv decode Inbound.read arrivals r client = some (got, r', client')) :
    (∃ msg line, got = .msg msg ∧ newline ∉ line ∧ decode line = some msg ∧
      r.loaded ++ client.unread = line ++ newline :: (r'.loaded ++ client'.unread)) ∨
      (∀ msg, got ≠ .msg msg) ∧ r'.loaded ++ client'.unread = r.loaded ++ client.unread := by
  rcases answers_of_poll h with hanswer | ⟨rfl, hsame⟩
  · generalize r.loaded ++ client.unread = text at hanswer
    generalize r'.loaded ++ client'.unread = text' at hanswer
    cases hanswer with
    | msg hmem hdecode =>
        exact .inl ⟨_, _, rfl, sep_notMem_firstLine _ _, hdecode, firstLine_append_afterLine hmem⟩
    | malformed | eof | panicked | dropped => exact .inr ⟨by simp, rfl⟩
  · exact .inr ⟨by simp, hsame⟩

end Poll

/-- What the client of task `t` has put on its connection. -/
def bytesFrom (t : TaskId) (trace : List (Wire × Wire.Label)) : List UInt8 :=
  trace.flatMap fun p =>
    match p.2 with
    | .sends u bytes => if u = t then bytes else []
    | _ => []

/-- The messages that task `t` has received. -/
def receivedBy (t : TaskId) (trace : List (Server × Label)) : List ClientToServerMsg :=
  trace.filterMap fun p =>
    match p.2 with
    | .recv u (.msg msg) _ => if u = t then some msg else none
    | _ => none

/-- Some lines of the bytes of a client were taken; the others are in the buffer and on the
connection. -/
structure Taken (decode : List UInt8 → Option ClientToServerMsg) (w : Wire) (t : TaskId)
    (bytes : List UInt8) (msgs : List ClientToServerMsg) (lines : List (List UInt8)) : Prop where
  bytes : bytes = unlines newline lines ++ ((w.reader t).loaded ++ (w.inbound t).unread)
  msgs : lines.map decode = msgs.map some
  lines : ∀ line ∈ lines, newline ∉ line

@[simp] theorem bytesFrom_append (first second : List (Wire × Wire.Label)) :
    bytesFrom t (first ++ second) = bytesFrom t first ++ bytesFrom t second :=
  List.flatMap_append ..

@[simp] theorem receivedBy_append (first second : List (Server × Label)) :
    receivedBy t (first ++ second) = receivedBy t first ++ receivedBy t second :=
  List.filterMap_append ..

theorem receivedBy_msg (s : Server) (u : TaskId) (msg : ClientToServerMsg)
    (order : List (String × TaskId)) :
    receivedBy t [(s, .recv u (.msg msg) order)] = if u = t then [msg] else [] := by
  by_cases hut : u = t <;> simp [receivedBy, hut]

/-- A step that takes no line of the client of `t`, but may bring bytes. -/
theorem Taken.keep {bytes : List UInt8} {msgs : List ClientToServerMsg}
    {lines : List (List UInt8)} (h : Taken decode w t bytes msgs lines) {more : List UInt8}
    (hbytes : (w'.reader t).loaded ++ (w'.inbound t).unread =
      (w.reader t).loaded ++ (w.inbound t).unread ++ more) :
    Taken decode w' t (bytes ++ more) msgs lines := by
  refine ⟨?_, h.msgs, h.lines⟩
  rw [h.bytes, hbytes, List.append_assoc]

/-- A poll of the reader of a task. -/
theorem Taken.poll {bytes : List UInt8} {msgs : List ClientToServerMsg}
    {lines : List (List UInt8)} (h : Taken decode w t bytes msgs lines) {u : TaskId}
    {arrivals : List Arrival} {outcome : MessageReader.Outcome ClientToServerMsg}
    {reader : MessageReader} {client : Inbound} (server : Server)
    (hrecv : MessageReader.recv decode Inbound.read arrivals (w.reader u) (w.inbound u) =
      some (outcome, reader, client)) :
    ∃ lines, Taken decode
      { w with
        server
        reader := update w.reader u reader
        inbound := update w.inbound u client }
      t bytes (msgs ++ if u = t then outcome.message.toList else []) lines := by
  by_cases hut : u = t
  · subst hut
    rcases line_of_poll hrecv with ⟨msg, line, rfl, hline, hdecode, htext⟩ | ⟨hnone, hsame⟩
    · refine ⟨lines ++ [line], ?_, by simp [h.msgs, hdecode, MessageReader.Outcome.message],
        ?_⟩
      · simp [h.bytes, htext, unlines]
      · simpa [or_imp, forall_and, hline] using h.lines
    · refine ⟨lines, ?_, ?_, h.lines⟩
      · simpa [hsame] using h.bytes
      · cases outcome with
        | msg msg => exact absurd rfl (hnone msg)
        | _ => simpa [MessageReader.Outcome.message] using h.msgs
  · refine ⟨lines, ?_, ?_, h.lines⟩
    · simpa [Ne.symm hut] using h.bytes
    · simpa [hut] using h.msgs

/-- What a step does to the bytes of the client of `t`. -/
theorem taken_of_step {bytes : List UInt8} {msgs : List ClientToServerMsg}
    {lines : List (List UInt8)} (h : Taken decode w t bytes msgs lines)
    (hstep : Transmits encode decode maxClients w l w') :
    ∃ lines, Taken decode w' t (bytes ++ bytesFrom t [(w, l)])
      (msgs ++ receivedBy t (serverTrace decode [(w, l)])) lines := by
  -- the bytes stay where they are, and nothing is received
  have hquiet : bytesFrom t [(w, l)] = [] → receivedBy t (serverTrace decode [(w, l)]) = [] →
      (w'.reader t).loaded ++ (w'.inbound t).unread =
        (w.reader t).loaded ++ (w.inbound t).unread →
      ∃ lines, Taken decode w' t (bytes ++ bytesFrom t [(w, l)])
        (msgs ++ receivedBy t (serverTrace decode [(w, l)])) lines := by
    intro hbytes hmsgs hsame
    rw [hbytes, hmsgs, List.append_nil msgs]
    exact ⟨lines, h.keep (by rw [hsame, List.append_nil])⟩
  cases hstep with
  | @sends u more =>
      rw [serverTrace_of_none rfl]
      simp only [receivedBy, List.filterMap_nil, List.append_nil]
      refine ⟨lines, h.keep ?_⟩
      by_cases hut : u = t
      · simp [bytesFrom, hut]
      · simp [bytesFrom, hut, Ne.symm hut]
  | @closes u =>
      refine hquiet rfl rfl ?_
      by_cases hut : u = t
      · simp [hut]
      · simp [Ne.symm hut]
  | puts => exact hquiet rfl rfl rfl
  | wrote => exact hquiet rfl rfl rfl
  | @server l' server hrecv =>
      refine hquiet rfl ?_ rfl
      rw [serverTrace_of_some rfl]
      cases l' with
      | recv u got order => exact absurd rfl (hrecv u got order)
      | _ => rfl
  | @pending u arrivals order _ _ _ hrecv =>
      have hpolled := h.poll w.server hrecv
      rw [serverTrace_of_none (serverLabel_of_recv hrecv)]
      simpa [bytesFrom, receivedBy, MessageReader.Outcome.message] using hpolled
  | @received u arrivals order outcome got _ _ server _ hrecv hgot _ =>
      have hpolled := h.poll server hrecv
      rw [serverTrace_of_some (serverLabel_of_received hrecv hgot)]
      cases outcome with
      | msg msg =>
          cases hgot
          simpa [bytesFrom, receivedBy_msg, MessageReader.Outcome.message] using hpolled
      | dropped => cases hgot
      | _ =>
          cases hgot
          simpa [bytesFrom, receivedBy, MessageReader.Outcome.message] using hpolled

/-- **What the handlers receive**: the messages in the first lines of what the client of a
task has sent are those that the task has received, in order, each once. -/
theorem taken_of_run (hrun : Run (Fires (Wire.step encode decode maxClients)) Wire.init trace w)
    (t : TaskId) :
    ∃ lines, Taken decode w t (bytesFrom t trace) (receivedBy t (serverTrace decode trace))
      lines := by
  refine hrun.invariantTrace (I := fun trace w => ∃ lines, Taken decode w t (bytesFrom t trace)
    (receivedBy t (serverTrace decode trace)) lines) ⟨[], rfl, rfl, by simp⟩ ?_
  rintro trace w l w' - ⟨lines, htaken⟩ hstep
  simpa using taken_of_step htaken (transmits_of_step hstep)

/-! ## What the handlers write -/

section Server

variable {s s' : Server} {l : Label}

/-- The task that is resumed, or spawned. -/
def Label.resumed : Label → Option TaskId
  | .accept t | .timeout t | .recv t _ _ | .dequeue t | .wrote t _ => some t
  | .refused _ | .reap _ | .stop => none

private theorem phase_shutDown (s : Server) (t : TaskId) :
    (s.shutDown.task t).phase = (s.task t).phase ∨ (s.shutDown.task t).phase = .ended := by
  simp only [Server.shutDown]
  split
  · exact .inl rfl
  · exact .inr rfl

/-- A task that is not resumed stays where it is, or is cancelled. -/
theorem phase_of_other (h : Moved s l s') (hl : l.resumed ≠ some t) :
    (s'.task t).phase = (s.task t).phase ∨ (s'.task t).phase = .ended := by
  have hne : ∀ {u}, l.resumed = some u → t ≠ u := by
    rintro u hu rfl
    exact hl hu
  cases h with
  | turnedAway | refused | reaped => exact .inl rfl
  | refusalFailed | stopped => exact phase_shutDown s t
  | delivered => exact .inl (Server.sendAll_phase _ t)
  | undelivered =>
      left
      simpa [hne rfl] using Server.sendAll_phase _ t
  | _ => exact .inl (by simp [hne rfl])

/-- What a step is for the writer of task `t`, to which it passes these messages. -/
inductive Writes (s s' : Server) (t : TaskId) (l : Label) : List ServerToClientMsg → Prop
  | stays : (∀ ok, l ≠ .wrote t ok) → (s'.task t).phase = (s.task t).phase → Writes s s' t l []
  | dies : (s'.task t).phase = .ended → Writes s s' t l []
  | turns {sent} : (s.task t).phase.writing = none → (s.task t).phase ≠ .ended →
      sent = (s'.task t).phase.writing.toList → Writes s s' t l sent
  | ends : l = .wrote t true → (s'.task t).phase.writing = none → Writes s s' t l []

/-- A handler that is resumed by one of these was not writing, and what is passed to its
writer is what it is writing then. -/
theorem Writes.of_resumed (hstep : step maxClients s l = some s')
    (hl : (∃ got order, l = .recv t got order) ∨ l = .timeout t ∨ l = .dequeue t) :
    Writes s s' t l (sentTo t (observe maxClients s l)) := by
  have hphase : (s.task t).phase = .joining ∨ ∃ name, (s.task t).phase = .receiving name := by
    rcases hl with ⟨got, order, rfl⟩ | rfl | rfl <;> simp only [step] at hstep
    · split at hstep
      · next hphase => exact .inl hphase
      · next name hphase => exact .inr ⟨name, hphase⟩
      · cases hstep
    · split at hstep
      · next hphase => exact .inl hphase
      · cases hstep
    · split at hstep
      · next name _ _ hphase _ => exact .inr ⟨name, hphase⟩
      · next name hphase _ => exact .inr ⟨name, hphase⟩
      · cases hstep
  have hsent : sentTo t (observe maxClients s l) = sentTo t (sendEvent maxClients s l t) := by
    rcases hl with ⟨got, order, rfl⟩ | rfl | rfl
    · cases got with
      | msg msg =>
          rcases hphase with hphase | ⟨name, hphase⟩ <;> cases msg <;>
            simp [observe, hphase, sentTo]
      | _ => rfl
    · rfl
    · rfl
  rw [sentTo_sendEvent hstep] at hsent
  rcases hphase with hphase | ⟨name, hphase⟩ <;>
    exact .turns (by simp [hphase, Phase.writing]) (by simp [hphase]) hsent

theorem writes_of_step (hstep : step maxClients s l = some s') (t : TaskId) :
    Writes s s' t l (sentTo t (observe maxClients s l)) := by
  by_cases hresumed : (∃ got order, l = .recv t got order) ∨ l = .timeout t ∨ l = .dequeue t
  · exact .of_resumed hstep hresumed
  · simp only [not_or, not_exists] at hresumed
    obtain ⟨hrecv, htimeout, hdequeue⟩ := hresumed
    rw [sentTo_observe_eq_nil hstep hrecv htimeout hdequeue]
    -- no message is written in the other steps of this task, so its write ends or it dies
    by_cases hl : l.resumed = some t
    · cases moved_of_step hstep with
      | turnedAway => exact .stays (by simp) rfl
      | spawned _ habsent =>
          obtain rfl := Option.some.inj hl
          exact .turns (by simp [habsent, Phase.writing]) (by simp [habsent])
            (by simp [Phase.writing])
      | notJoined | bailed | unforwarded =>
          obtain rfl := Option.some.inj hl
          exact .dies (by simp)
      | inserted | answered | forwarded =>
          obtain rfl := Option.some.inj hl
          exact .ends rfl (by simp [Phase.writing])
      | joined | unread | panicked | answering | delivered | undelivered =>
          obtain rfl := Option.some.inj hl
          exact absurd rfl (hrecv _ _)
      | timedOut =>
          obtain rfl := Option.some.inj hl
          exact absurd rfl htimeout
      | dequeued | orphaned =>
          obtain rfl := Option.some.inj hl
          exact absurd rfl hdequeue
      | refused | refusalFailed | reaped | stopped => cases hl
    · rcases phase_of_other (moved_of_step hstep) hl with hsame | hended
      · refine .stays (fun ok hwrote => ?_) hsame
        rw [hwrote] at hl
        exact hl rfl
      · exact .dies hended

end Server

/-- What is on the connection of task `t`, whose writer was given these messages: their
lines, the last one as far as it was put there. -/
structure Written (encode : ServerToClientMsg → List UInt8) (w : Wire) (t : TaskId)
    (told : List ServerToClientMsg) : Prop where
  front : w.sent t <+: unlines newline (told.map encode)
  idle : (w.server.task t).phase.writing = none → (w.server.task t).phase ≠ .ended →
    w.sent t = unlines newline (told.map encode) ∧ w.progress t = 0
  busy : ∀ msg, (w.server.task t).phase.writing = some msg → ∃ done, told = done ++ [msg] ∧
    w.sent t = unlines newline (done.map encode) ++ (lineOf encode msg).take (w.progress t)

theorem unlines_snoc (encode : ServerToClientMsg → List UInt8) (done : List ServerToClientMsg)
    (msg : ServerToClientMsg) : unlines newline ((done ++ [msg]).map encode) =
      unlines newline (done.map encode) ++ lineOf encode msg := by
  simp [unlines, lineOf, MessageWriter.send]

namespace Written

variable {told : List ServerToClientMsg}

/-- A write puts a piece of its line on the connection. -/
theorem put (h : Written encode w t told) {msg : ServerToClientMsg}
    (hwriting : (w.server.task t).phase.writing = some msg) (n : ℕ) :
    Written encode
      { w with
        sent := update w.sent t (w.sent t ++ ((lineOf encode msg).drop (w.progress t)).take n)
        progress := update w.progress t (w.progress t + n) } t told := by
  obtain ⟨done, htold, hsent⟩ := h.busy msg hwriting
  have hmore : w.sent t ++ ((lineOf encode msg).drop (w.progress t)).take n =
      unlines newline (done.map encode) ++ (lineOf encode msg).take (w.progress t + n) := by
    rw [hsent, List.append_assoc, ← List.take_add]
  refine ⟨?_, fun hidle => ?_, fun msg' hmsg' => ?_⟩
  · rw [htold, unlines_snoc]
    simp only [update_self, hmore, List.prefix_append_right_inj]
    exact List.take_prefix _ _
  · rw [hwriting] at hidle
    cases hidle
  · cases hwriting.symm.trans hmsg'
    exact ⟨done, htold, by simpa using hmore⟩

/-- The server does a step. -/
theorem step (h : Written encode w t told) {l : Label} {sent : List ServerToClientMsg}
    (hwrites : Writes w.server w'.server t l sent) (hsent : w'.sent t = w.sent t)
    (hcomplete : l = .wrote t true → ∃ msg, (w.server.task t).phase.writing = some msg ∧
      w.progress t = (lineOf encode msg).length)
    (hsame : (∀ ok, l ≠ .wrote t ok) → w'.progress t = w.progress t)
    (hdone : ∀ ok, l = .wrote t ok → w'.progress t = 0) : Written encode w' t (told ++ sent) := by
  cases hwrites with
  | stays hl hphase =>
      rw [List.append_nil]
      refine ⟨hsent ▸ h.front, fun hidle hgoing => ?_, fun msg hwriting => ?_⟩
      · rw [hphase] at hidle hgoing
        rw [hsent, hsame hl]
        exact h.idle hidle hgoing
      · rw [hphase] at hwriting
        rw [hsent, hsame hl]
        exact h.busy msg hwriting
  | dies hended =>
      rw [List.append_nil]
      refine ⟨hsent ▸ h.front, fun _ hgoing => absurd hended hgoing, fun msg hwriting => ?_⟩
      rw [hended] at hwriting
      cases hwriting
  -- a new line begins behind the lines that are complete
  | turns hidle hgoing heq =>
      obtain ⟨hall, hzero⟩ := h.idle hidle hgoing
      have hprogress : w'.progress t = 0 := by
        by_cases hl : ∃ ok, l = .wrote t ok
        · obtain ⟨ok, hl⟩ := hl
          exact hdone ok hl
        · rw [hsame (by simpa using hl), hzero]
      refine ⟨?_, fun hidle' _ => ?_, fun msg hwriting => ⟨told, ?_, ?_⟩⟩
      · rw [hsent, hall, List.map_append, unlines, unlines, List.flatMap_append]
        exact List.prefix_append _ _
      · rw [heq, hidle', Option.toList_none, List.append_nil, hsent]
        exact ⟨hall, hprogress⟩
      · rw [heq, hwriting, Option.toList_some]
      · rw [hsent, hall, hprogress, List.take_zero, List.append_nil]
  | ends hl hidle' =>
      -- the line that was begun is complete
      obtain ⟨msg, hwriting, hlength⟩ := hcomplete hl
      obtain ⟨done, rfl, hpart⟩ := h.busy msg hwriting
      have hall : w'.sent t = unlines newline ((done ++ [msg]).map encode) := by
        rw [hsent, hpart, hlength, List.take_length, unlines_snoc]
      rw [List.append_nil]
      refine ⟨hall ▸ List.prefix_rfl, fun _ _ => ⟨hall, hdone true hl⟩, fun other hother => ?_⟩
      rw [hidle'] at hother
      cases hother

end Written

/-! ## The connections of a run -/

private theorem history_append (first second : List (Server × Label)) :
    history maxClients (first ++ second) = history maxClients first ++ history maxClients second :=
  List.flatMap_append ..

/-- What a step does to the connection of task `t`. -/
theorem written_of_step {told : List ServerToClientMsg} (h : Written encode w t told)
    (hstep : Transmits encode decode maxClients w l w') :
    Written encode w' t
      (told ++ sentTo t (history maxClients (serverTrace decode [(w, l)]))) := by
  -- what the step is for the server tells what the handler writes
  have hserver : ∀ {l' : Label}, serverLabel decode w l = some l' →
      sentTo t (history maxClients (serverTrace decode [(w, l)])) =
        sentTo t (observe maxClients w.server l') := by
    intro l' hlabel
    rw [serverTrace_of_some hlabel]
    simp [history]
  have hquiet : serverLabel decode w l = none →
      told ++ sentTo t (history maxClients (serverTrace decode [(w, l)])) = told := by
    intro hlabel
    rw [serverTrace_of_none hlabel]
    exact List.append_nil told
  cases hstep with
  | sends | closes =>
      rw [hquiet rfl]
      exact ⟨h.front, h.idle, h.busy⟩
  | pending _ hrecv =>
      rw [hquiet (serverLabel_of_recv hrecv)]
      exact ⟨h.front, h.idle, h.busy⟩
  | @puts u n msg hwriting =>
      rw [hquiet rfl]
      by_cases hut : u = t
      · subst hut
        exact h.put hwriting n
      · have hsame := Ne.symm hut
        exact ⟨by simpa [hsame] using h.front, by simpa [hsame] using h.idle,
          by simpa [hsame] using h.busy⟩
  | received _ hrecv hgot hstep =>
      rw [hserver (serverLabel_of_received hrecv hgot)]
      exact h.step (writes_of_step hstep t) rfl (by simp) (fun _ => rfl) (by simp)
  | @wrote u ok msg server hwriting hcomplete hstep =>
      rw [hserver rfl]
      refine h.step (writes_of_step hstep t) rfl ?_ ?_ ?_
      · rintro heq
        cases heq
        exact ⟨msg, hwriting, hcomplete rfl⟩
      · intro hother
        have hne : t ≠ u := by
          rintro rfl
          exact hother ok rfl
        simp [hne]
      · rintro ok' heq
        cases heq
        simp
  | server _ hwrote hstep =>
      rw [hserver rfl]
      exact h.step (writes_of_step hstep t) rfl (fun heq => absurd heq (hwrote t true))
        (fun _ => rfl) fun ok heq => absurd heq (hwrote t ok)

/-- **What is on the connections**: the front of the lines of what the handler has told its
client, whatever fails and whoever is cancelled. -/
theorem written_of_run
    (hrun : Run (Fires (Wire.step encode decode maxClients)) Wire.init trace w) (t : TaskId) :
    Written encode w t (sentTo t (history maxClients (serverTrace decode trace))) := by
  refine hrun.invariantTrace (I := fun trace w =>
    Written encode w t (sentTo t (history maxClients (serverTrace decode trace)))) ?_ ?_
  · exact ⟨List.prefix_rfl, fun _ _ => ⟨rfl, rfl⟩, fun msg hwriting => by cases hwriting⟩
  · intro trace w l w' _ hwritten hstep
    have hnext := written_of_step hwritten (transmits_of_step hstep)
    rwa [← sentTo_append, ← history_append, ← serverTrace_append] at hnext

end RustCourse.Lesson10
