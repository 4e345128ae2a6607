import RustCourse.Chat.Messages
import RustCourse.Lib.HashMap
import RustCourse.Lib.Transition

/-!
# The lesson 10 chat server

`lessons/10/exercises/src/server.rs`: one thread, one task per client, the clients
map behind a `RefCell`, and an unbounded channel per client for the messages that
other clients send to it.

Tasks are interleaved at their await points only, so a state says for every task at
which await it is suspended (`Phase`), and a label says which task is resumed and
what the environment answered: what `reader.recv()` yielded, whether a write
succeeded, in which order the map was iterated.  Everything between two awaits is
one step.

A channel is named by the task that owns its receiver: `handle_client` creates
exactly one, moves the sender into the map, and drops the receiver when it ends.  So
the map sends a username to a task, a channel is open while its task is in the loop
of `handle_client`, and its sender is alive while some entry of the map holds it.
-/

namespace RustCourse.Lesson10

open Chat Transition

/-- Tasks, and the connections they serve, are named by numbers. -/
abbrev TaskId := ℕ

/-- Where a handler task is suspended. -/
inductive Phase
  | absent
  /-- `join_client`: the `select!` over `reader.recv()` and the two second sleep -/
  | joining
  /-- `join_client`: writing an error, after which the task fails -/
  | refusing (reply : ServerToClientMsg)
  /-- `join_client`: writing `Welcome` -/
  | welcoming (name : String)
  /-- `handle_client`: the `select!` over `reader.recv()` and `rx.recv()` -/
  | receiving (name : String)
  /-- `react_client_msg`: writing a reply, and then bailing out or not -/
  | replying (name : String) (reply : ServerToClientMsg) (bail : Bool)
  /-- `handle_client`: writing a message taken from the queue -/
  | forwarding (name : String) (msg : ServerToClientMsg)
  /-- returned, panicked or cancelled -/
  | ended
  deriving DecidableEq, Repr

namespace Phase

/-- The username of a task that is in the receive loop of `handle_client`. -/
def serving : Phase → Option String
  | .receiving name => some name
  | .replying name _ _ => some name
  | .forwarding name _ => some name
  | .absent => none
  | .joining => none
  | .refusing _ => none
  | .welcoming _ => none
  | .ended => none

/-- The message of the `writer.send` the task is suspended in. -/
def writing : Phase → Option ServerToClientMsg
  | .refusing reply => some reply
  | .welcoming _ => some .welcome
  | .replying _ reply _ => some reply
  | .forwarding _ msg => some msg
  | .absent => none
  | .joining => none
  | .receiving _ => none
  | .ended => none

end Phase

/-- A handler task and the messages queued in its channel. -/
structure Task where
  phase : Phase
  queue : List ServerToClientMsg
  deriving DecidableEq, Repr

/-- Where `run_server` is suspended. -/
inductive Acceptor
  /-- the `select!` over the stop signal, `accept` and `join_next` -/
  | listening
  /-- writing "Server is full" to a connection it will not serve -/
  | refusing
  | stopped
  deriving DecidableEq, Repr

/-- What the tasks share, and where each of them is. -/
structure Server where
  acceptor : Acceptor
  /-- the `JoinSet`: spawned tasks that were not reaped yet -/
  joinSet : List TaskId
  clients : HashMap String TaskId
  task : TaskId → Task

/-- The server listens, and nobody was accepted. -/
def Server.init : Server :=
  ⟨.listening, [], ∅, fun _ => ⟨.absent, []⟩⟩

/-- What `reader.recv()` yields, or that its assertion fails. -/
inductive Received
  | msg (msg : ClientToServerMsg)
  | err
  | eof
  | panics
  deriving DecidableEq, Repr

/-- What a step is, with all that the environment decides. -/
inductive Label
  /-- `listener.accept()` yields a connection; it is served as task `t` if at all -/
  | accept (t : TaskId)
  /-- the write of "Server is full" ends -/
  | refused (ok : Bool)
  /-- `join_next` yields an ended task -/
  | reap (t : TaskId)
  /-- the stop signal arrives -/
  | stop
  /-- the two second sleep of `join_client` ends -/
  | timeout (t : TaskId)
  /-- `reader.recv()` yields; iterating over the map goes in the given order -/
  | recv (t : TaskId) (got : Received) (order : List (String × TaskId))
  /-- `rx.recv()` yields -/
  | dequeue (t : TaskId)
  /-- the write the task is suspended in ends -/
  | wrote (t : TaskId) (ok : Bool)
  deriving DecidableEq, Repr

namespace Server

/-! ## Updates of one task -/

/-- The state of one task is changed. -/
def setTask (s : Server) (t : TaskId) (task : Task) : Server :=
  { s with task := Function.update s.task t task }

/-- A task goes on. -/
def setPhase (s : Server) (t : TaskId) (phase : Phase) : Server :=
  s.setTask t { s.task t with phase }

/-- The task returns, or is dropped: its receiver and the queue go with it. -/
def finish (s : Server) (t : TaskId) : Server :=
  s.setTask t ⟨.ended, []⟩

/-- `clients.borrow_mut().remove(&name)` and the return after it. -/
def leave (s : Server) (t : TaskId) (name : String) : Server :=
  { s.finish t with clients := s.clients.erase name }

/-- `clients.borrow_mut().insert(name, tx)` with a fresh channel, and into the loop. -/
def insert (s : Server) (t : TaskId) (name : String) : Server :=
  { s.setTask t ⟨.receiving name, []⟩ with clients := s.clients.insert name t }

/-- `run_server` returns: dropping the `JoinSet` cancels every task, and with the
tasks goes the map. -/
def shutDown (s : Server) : Server where
  acceptor := .stopped
  joinSet := []
  clients := ∅
  task t := if (s.task t).phase = .absent then s.task t else ⟨.ended, []⟩

/-! ## Channels -/

/-- The receiver of the channel of task `t` was not dropped. -/
def isOpen (s : Server) (t : TaskId) : Bool :=
  (s.task t).phase.serving.isSome

/-- Some entry of the map holds the sender of the channel of task `t`. -/
def hasSender (s : Server) (t : TaskId) : Bool :=
  decide (t ∈ s.clients.entries.map fun entry => entry.2)

/-- A message is put into the queue of a task. -/
def enqueue (s : Server) (t : TaskId) (msg : ServerToClientMsg) : Server :=
  s.setTask t { s.task t with queue := (s.task t).queue ++ [msg] }

/-- `channel.send(msg)?` on one channel after the other: the first closed channel
ends it, and the messages sent before it stay sent. -/
def sendAll (msg : ServerToClientMsg) : Server → List TaskId → Server × Bool
  | s, [] => (s, true)
  | s, t :: rest => if s.isOpen t then sendAll msg (s.enqueue t msg) rest else (s, false)

end Server

/-! ## The handler -/

/-- `join_client`, from what the client sent first to the next await. -/
def joinClient (clients : HashMap String TaskId) : Received → Phase
  | .msg (.join name) =>
      if name ∈ clients then .refusing (.error "Username already taken") else .welcoming name
  | .msg _ => .refusing (.error "Unexpected message received")
  | .err => .ended
  | .eof => .refusing (.error "Connection closed")
  | .panics => .ended

/-- What `react_client_msg` does up to its first await. -/
inductive Reaction
  /-- it writes to its own client, and then returns `Ok` or bails out -/
  | reply (msg : ServerToClientMsg) (bail : Bool)
  /-- it sends to channels of other clients, without suspending -/
  | sends (targets : List TaskId) (msg : ServerToClientMsg)
  deriving DecidableEq, Repr

/-- `react_client_msg`; `order` is the order in which the map is iterated. -/
def reactClientMsg (clients : HashMap String TaskId) (order : List (String × TaskId))
    (name : String) : ClientToServerMsg → Reaction
  | .ping => .reply .pong false
  | .listUsers => .reply (.userList (order.map Prod.fst)) false
  | .broadcast message =>
      .sends ((order.filter fun item => item.1 ≠ name).map Prod.snd) (.message name message)
  | .sendDM recipient message =>
      if recipient = name then
        .reply (.error "Cannot send a DM to yourself") false
      else
        match clients.lookup recipient with
        | some channel => .sends [channel] (.message name message)
        | none => .reply (.error s!"User {recipient} does not exist") false
  | .join _ => .reply (.error "Unexpected message received") true

/-- One turn of the loop of `handle_client` whose `reader.recv()` branch was taken. -/
def handleReceived (s : Server) (t : TaskId) (name : String) (order : List (String × TaskId)) :
    Received → Server
  | .msg msg =>
      match reactClientMsg s.clients order name msg with
      | .reply reply bail => s.setPhase t (.replying name reply bail)
      | .sends targets forwarded =>
          match s.sendAll forwarded targets with
          | (s', true) => s'
          | (s', false) => s'.leave t name
  | .err | .eof => s.leave t name
  | .panics => s.finish t

/-! ## Steps -/

/-- One task, or the loop of `run_server`, goes on to its next suspension. -/
def step (maxClients : ℕ) (s : Server) : Label → Option Server
  | .accept t =>
      if s.acceptor = .listening ∧ (s.task t).phase = .absent then
        if maxClients < s.joinSet.length then
          some { s with acceptor := .refusing }
        else
          some { s.setPhase t .joining with joinSet := t :: s.joinSet }
      else none
  | .refused ok =>
      if s.acceptor = .refusing then
        some (if ok then { s with acceptor := .listening } else s.shutDown)
      else none
  | .reap t =>
      if s.acceptor = .listening ∧ t ∈ s.joinSet ∧ (s.task t).phase = .ended then
        some { s with joinSet := s.joinSet.erase t }
      else none
  | .stop => if s.acceptor = .listening then some s.shutDown else none
  | .timeout t =>
      match (s.task t).phase with
      | .joining => some (s.setPhase t (.refusing (.error "Timed out waiting for Join")))
      | _ => none
  | .recv t got order =>
      match (s.task t).phase with
      | .joining => some (s.setPhase t (joinClient s.clients got))
      | .receiving name =>
          if s.clients.Enumerates order then some (handleReceived s t name order got) else none
      | _ => none
  | .dequeue t =>
      match (s.task t).phase, (s.task t).queue with
      | .receiving name, msg :: rest => some (s.setTask t ⟨.forwarding name msg, rest⟩)
      | .receiving name, [] => if s.hasSender t then none else some (s.leave t name)
      | _, _ => none
  | .wrote t ok =>
      match (s.task t).phase with
      | .refusing _ => some (s.finish t)
      | .welcoming name => some (if ok then s.insert t name else s.finish t)
      | .replying name _ bail =>
          some (if ok && !bail then s.setPhase t (.receiving name) else s.leave t name)
      | .forwarding name _ =>
          -- the `?` here returns from `handle_client` without the `remove`
          some (if ok then s.setPhase t (.receiving name) else s.finish t)
      | _ => none

/-! ## What can be observed of a run -/

/-- What can be observed of a run from outside. -/
inductive Event
  /-- `join_client` reads `Join` -/
  | join (t : TaskId) (name : String)
  /-- the entry of the client is inserted -/
  | inserted (t : TaskId) (name : String)
  /-- `react_client_msg` is called -/
  | request (t : TaskId) (msg : ClientToServerMsg)
  /-- `writer.send` is called -/
  | send (t : TaskId) (msg : ServerToClientMsg)
  deriving DecidableEq, Repr

/-- The `writer.send` call a step ends in, if it does. -/
def sendEvent (maxClients : ℕ) (s : Server) (l : Label) (t : TaskId) : List Event :=
  match step maxClients s l with
  | some s' => ((s'.task t).phase.writing.map (Event.send t)).toList
  | none => []

/-- The events of a step. -/
def observe (maxClients : ℕ) (s : Server) : Label → List Event
  | .recv t (.msg msg) order =>
      (match (s.task t).phase, msg with
        | .joining, .join name => [.join t name]
        | .receiving _, msg => [.request t msg]
        | _, _ => []) ++ sendEvent maxClients s (.recv t (.msg msg) order) t
  | .recv t got order => sendEvent maxClients s (.recv t got order) t
  | .timeout t => sendEvent maxClients s (.timeout t) t
  | .dequeue t => sendEvent maxClients s (.dequeue t) t
  | .wrote t true =>
      match (s.task t).phase with
      | .welcoming name => [.inserted t name]
      | _ => []
  | _ => []

/-- Everything observed along a trace. -/
def history (maxClients : ℕ) (trace : List (Server × Label)) : List Event :=
  trace.flatMap fun p => observe maxClients p.1 p.2

@[simp] theorem history_snoc (maxClients : ℕ) (trace : List (Server × Label)) (s : Server)
    (l : Label) :
    history maxClients (trace ++ [(s, l)]) =
      history maxClients trace ++ observe maxClients s l := by
  simp [history]

end RustCourse.Lesson10
