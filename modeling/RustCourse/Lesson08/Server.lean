import RustCourse.Chat.Plan
import RustCourse.Lib.Transition

/-!
# The lesson 08 chat server

`lessons/08/exercises/src/server.rs`: a thread per client, an acceptor thread, and the
thread that drops the `RunningServer`.  They share the clients table behind an `RwLock`,
a `Mutex` around the writer of every client, and the `Mutex` around the join handles.

Threads are interleaved at single lock operations, socket writes and reads.  The phase of
a thread says what it does next, and with that which guards it holds, so there is no
separate lock state: a guard is granted if no phase holds a conflicting one.  The writer
of a client is named by the entry it sits in.  That is unambiguous while anybody holds
it, because writers are only locked under a read guard of the table.

A connection is named by the handler thread that serves it.

A phase is named after what the thread waits for or does next, with the data it still needs,
and there is one function for the steps of every kind of thread (`handlerStep`,
`acceptorStep`, `dropStep`).  `none` is a step that cannot be taken.
-/

namespace RustCourse.Lesson08

open Chat Transition

/-! ## Threads -/

/-- Threads, and the connections they serve, are numbered as they are spawned. -/
abbrev ThreadId := ℕ

/-! ## The handler -/

/-- `handle_joined`, from the read guard on; `order` is the order in which the table is
iterated. -/
def handleJoined (clients : HashMap String ThreadId) (order : List (String × ThreadId))
    (name : String) : ClientToServerMsg → Plan
  | .join _ => ⟨reply clients name (.error "Unexpected message received"), true⟩
  | .ping => ⟨reply clients name .pong, false⟩
  | .listUsers => ⟨reply clients name (.userList (order.map Prod.fst)), false⟩
  | .sendDM recipient message =>
      match clients.lookup name with
      | none => ⟨[], false⟩
      | some sender =>
          ⟨.lock name :: ((if recipient = name then
              [.write sender (.error "Cannot send a DM to yourself")]
            else
              match clients.lookup recipient with
              | some other =>
                  [.lock recipient, .write other (.message name message), .unlock recipient]
              | none => [.write sender (.error s!"User {recipient} does not exist")])
            ++ [.unlock name]), false⟩
  | .broadcast message =>
      ⟨writeAll (order.filter fun item => item.1 ≠ name) (.message name message), false⟩

/-- What a handler thread does next. -/
inductive Phase
  | absent
  /-- `join_client`: `reader.read()` -/
  | reading
  /-- `join_client`: acquires the table for `contains_key` -/
  | checking (name : String)
  /-- `join_client`: drops the read guard, having seen whether the name is taken -/
  | checked (name : String) (taken : Bool)
  /-- `join_client`: writes an error, and ends -/
  | refusing (reply : ServerToClientMsg)
  /-- `join_client`: writes `Welcome` -/
  | welcoming (name : String)
  /-- `join_client`: acquires the table for `insert` -/
  | inserting (name : String)
  /-- `join_client`: drops the write guard after the `insert` -/
  | inserted (name : String)
  /-- `handle_joined`: `reader.next()` -/
  | receiving (name : String)
  /-- `handle_joined`: acquires the table for a request -/
  | requesting (name : String) (msg : ClientToServerMsg)
  /-- `handle_joined`: carries out the request under the read guard; `held` are the entries
  whose writers it holds -/
  | serving (name : String) (held : List String) (acts : List Act) (bail : Bool)
  /-- `handle_joined`: acquires the table for `remove` -/
  | leaving (name : String)
  /-- `handle_joined`: drops the write guard after the `remove`, and ends -/
  | left (name : String)
  /-- returned or panicked -/
  | ended
  deriving DecidableEq, Repr

namespace Phase

/-- It holds a read guard of the table. -/
def reads : Phase → Bool
  | .checked _ _ => true
  | .serving _ _ _ _ => true
  | _ => false

/-- It holds the write guard of the table. -/
def writes : Phase → Bool
  | .inserted _ => true
  | .left _ => true
  | _ => false

/-- It waits for the write guard of the table. -/
def wantsWrite : Phase → Bool
  | .inserting _ => true
  | .leaving _ => true
  | _ => false

/-- The entries whose writers it holds. -/
def held : Phase → List String
  | .serving _ held _ _ => held
  | _ => []

end Phase

/-- What `reader.read()` returns. -/
inductive Received
  | msg (msg : ClientToServerMsg)
  /-- too long, malformed or truncated -/
  | err
  | eof
  deriving DecidableEq, Repr

/-! ## The acceptor and the drop -/

/-- What the acceptor thread does next. -/
inductive Acceptor
  /-- `listener.accept()` -/
  | accepting
  /-- loads `terminated` -/
  | accepted
  /-- acquires the join handles -/
  | locking
  /-- holds the handles and looks at the `i`-th -/
  | reaping (i : ℕ)
  /-- holds the handles and writes "Server is full" -/
  | refusing
  | ended
  deriving DecidableEq, Repr

/-- What `drop` does next. -/
inductive Drop
  /-- the `RunningServer` is alive -/
  | running
  /-- has stored `terminated`; connects to its own port -/
  | connecting
  /-- joins the acceptor -/
  | joiningAcceptor
  /-- acquires the table -/
  | readingTable
  /-- holds the table and shuts down the sockets of these entries -/
  | closing (rest : List String)
  /-- holds the table and acquires the join handles -/
  | lockingHandles
  /-- holds the table and the handles; joins the popped handle, if there is one -/
  | joining (handle : Option ThreadId)
  | returned
  deriving DecidableEq, Repr

namespace Drop

/-- It holds a read guard of the table. -/
def reads : Drop → Bool
  | .closing _ => true
  | .lockingHandles => true
  | .joining _ => true
  | _ => false

end Drop

/-- What the threads of the server share, and where each of them is. -/
structure Server where
  terminated : Bool
  /-- the connection `drop` made to its own port waits to be accepted -/
  wakeUp : Bool
  acceptor : Acceptor
  /-- `client_handles` -/
  handles : List ThreadId
  /-- the handlers spawned so far are the threads below this number -/
  spawned : ℕ
  clients : HashMap String ThreadId
  phase : ThreadId → Phase
  /-- the connections `drop` has shut down -/
  shut : ThreadId → Bool
  drop : Drop

/-- `RunningServer::new` has returned. -/
def Server.init : Server where
  terminated := false
  wakeUp := false
  acceptor := .accepting
  handles := []
  spawned := 0
  clients := ∅
  phase _ := .absent
  shut _ := false
  drop := .running

namespace Server

/-! ## Guards -/

/-- Nobody holds the write guard of the table. -/
def Readable (s : Server) : Prop :=
  ∀ t < s.spawned, (s.phase t).writes = false

/-- Nobody holds any guard of the table. -/
def Writable (s : Server) : Prop :=
  s.drop.reads = false ∧ ∀ t < s.spawned, (s.phase t).writes = false ∧ (s.phase t).reads = false

/-- Nobody holds the writer of the entry `name`. -/
def WriterFree (s : Server) (name : String) : Prop :=
  ∀ t < s.spawned, name ∉ (s.phase t).held

instance (s : Server) : Decidable s.Readable := by
  unfold Readable
  infer_instance

instance (s : Server) : Decidable s.Writable := by
  unfold Writable
  infer_instance

instance (s : Server) (name : String) : Decidable (s.WriterFree name) := by
  unfold WriterFree
  infer_instance

/-- A handler goes on. -/
def setPhase (s : Server) (t : ThreadId) (phase : Phase) : Server :=
  { s with phase := Function.update s.phase t phase }

end Server

/-! ## Steps -/

/-- What happens to a handler thread. -/
inductive Action
  /-- `reader.read()` returns what the peer sent, or that it is gone -/
  | read (got : Received)
  /-- `reader.read()` finds that the server has shut down the socket -/
  | wake
  /-- the guard it waits for is granted; iterating over the table goes in the given order -/
  | acquire (order : List (String × ThreadId))
  /-- it drops a guard -/
  | release
  /-- a write ends -/
  | wrote (ok : Bool)
  deriving DecidableEq, Repr

/-- `join_client`, after `reader.read()`. -/
def joinClient : Received → Phase
  | .msg (.join name) => .checking name
  | .msg _ => .refusing (.error "Unexpected message received")
  | .err => .ended
  -- `expect` panics
  | .eof => .ended

/-- The loop of `handle_joined`, after `reader.next()`. -/
def receive (name : String) : Received → Phase
  | .msg msg => .requesting name msg
  -- the `?` returns without the `remove`
  | .err => .ended
  | .eof => .leaving name

open Server in
/-- A step of handler thread `t`. -/
def handlerStep (s : Server) (t : ThreadId) : Action → Option Server
  | .read got =>
      match s.phase t with
      | .reading => some (s.setPhase t (joinClient got))
      | .receiving name => some (s.setPhase t (receive name got))
      | _ => none
  | .wake =>
      if s.shut t then
        match s.phase t with
        | .reading => some (s.setPhase t (joinClient .eof))
        | .receiving name => some (s.setPhase t (receive name .eof))
        | _ => none
      else none
  | .acquire order =>
      match s.phase t with
      | .checking name =>
          if s.Readable then
            some (s.setPhase t (.checked name (decide (name ∈ s.clients))))
          else none
      | .inserting name =>
          if s.Writable then
            some { s.setPhase t (.inserted name) with clients := s.clients.insert name t }
          else none
      | .requesting name msg =>
          if s.Readable ∧ s.clients.Enumerates order then
            let plan := handleJoined s.clients order name msg
            some (s.setPhase t (.serving name [] plan.acts plan.bail))
          else none
      | .serving name held (.lock other :: rest) bail =>
          if s.WriterFree other then some (s.setPhase t (.serving name (other :: held) rest bail))
          else none
      | .leaving name =>
          if s.Writable then
            some { s.setPhase t (.left name) with clients := s.clients.erase name }
          else none
      | _ => none
  | .release =>
      match s.phase t with
      | .checked _ true => some (s.setPhase t (.refusing (.error "Username already taken")))
      | .checked name false => some (s.setPhase t (.welcoming name))
      | .inserted name => some (s.setPhase t (.receiving name))
      | .serving name held (.unlock other :: rest) bail =>
          some (s.setPhase t (.serving name (held.erase other) rest bail))
      | .serving name _ [] bail =>
          some (s.setPhase t (if bail then .leaving name else .receiving name))
      | .left _ => some (s.setPhase t .ended)
      | _ => none
  | .wrote ok =>
      match s.phase t with
      | .refusing _ => some (s.setPhase t .ended)
      | .welcoming name => some (s.setPhase t (if ok then .inserting name else .ended))
      | .serving name held (.write _ _ :: rest) bail =>
          -- the `?` drops all guards and returns without the `remove`
          some (s.setPhase t (if ok then .serving name held rest bail else .ended))
      | _ => none

/-- What happens to the acceptor thread. -/
inductive AcceptorAction
  /-- `listener.accept()` returns the connection of a client -/
  | accept
  /-- `listener.accept()` returns the connection `drop` made -/
  | acceptWakeUp
  | load
  | lock
  /-- one look at `handles[i].is_finished()`, or the decision after the loop -/
  | reap
  /-- the write of "Server is full" ends -/
  | refused (ok : Bool)
  deriving DecidableEq, Repr

/-- `Vec::swap_remove`. -/
def swapRemove (handles : List ThreadId) (i : ℕ) : List ThreadId :=
  match handles.getLast? with
  | some last => (handles.set i last).dropLast
  | none => handles

/-- What happens in `run_server`. -/
def acceptorStep (maxClients : ℕ) (s : Server) : AcceptorAction → Option Server
  | .accept => if s.acceptor = .accepting then some { s with acceptor := .accepted } else none
  | .acceptWakeUp =>
      if s.acceptor = .accepting ∧ s.wakeUp then
        some { s with acceptor := .accepted, wakeUp := false }
      else none
  | .load =>
      if s.acceptor = .accepted then
        some { s with acceptor := if s.terminated then .ended else .locking }
      else none
  | .lock =>
      match s.acceptor, s.drop with
      | .locking, .joining _ => none
      | .locking, _ => some { s with acceptor := .reaping 0 }
      | _, _ => none
  | .reap =>
      match s.acceptor with
      | .reaping i =>
          match s.handles[i]? with
          | some handle =>
              if s.phase handle = .ended then some { s with handles := swapRemove s.handles i }
              else some { s with acceptor := .reaping (i + 1) }
          | none =>
              if maxClients ≤ s.handles.length then some { s with acceptor := .refusing }
              else
                some { s.setPhase s.spawned .reading with
                  acceptor := .accepting
                  handles := s.handles ++ [s.spawned]
                  spawned := s.spawned + 1 }
      | _ => none
  | .refused ok =>
      if s.acceptor = .refusing then
        some { s with acceptor := if ok then .accepting else .ended }
      else none

/-- What happens to the thread that drops the server. -/
inductive DropAction
  /-- `drop` is called -/
  | start
  | connect
  | joinAcceptor
  /-- the table is acquired; iterating over it goes in the given order -/
  | readTable (order : List (String × ThreadId))
  /-- one client's writer is acquired, its socket is shut down, and the writer is released -/
  | close
  | lockHandles
  | pop
  | join
  deriving DecidableEq, Repr

/-- What happens in `drop`. -/
def dropStep (s : Server) : DropAction → Option Server
  | .start =>
      if s.drop = .running then
        some { s with terminated := true, drop := .connecting }
      else none
  | .connect =>
      if s.drop = .connecting then
        some { s with wakeUp := true, drop := .joiningAcceptor }
      else none
  | .joinAcceptor =>
      if s.drop = .joiningAcceptor ∧ s.acceptor = .ended then some { s with drop := .readingTable }
      else none
  | .readTable order =>
      if s.drop = .readingTable ∧ s.Readable ∧ s.clients.Enumerates order then
        some { s with drop := .closing (order.map Prod.fst) }
      else none
  | .close =>
      match s.drop with
      | .closing (name :: rest) =>
          if s.WriterFree name then
            some { s with
              drop := .closing rest
              shut := match s.clients.lookup name with
                | some client => Function.update s.shut client true
                | none => s.shut }
          else none
      | .closing [] => some { s with drop := .lockingHandles }
      | _ => none
  | .lockHandles =>
      match s.drop, s.acceptor with
      | .lockingHandles, .reaping _ => none
      | .lockingHandles, .refusing => none
      | .lockingHandles, _ => some { s with drop := .joining none }
      | _, _ => none
  | .pop =>
      match s.drop, s.handles.getLast? with
      | .joining none, some handle =>
          some { s with drop := .joining (some handle), handles := s.handles.dropLast }
      | .joining none, none => some { s with drop := .returned }
      | _, _ => none
  | .join =>
      match s.drop with
      | .joining (some handle) =>
          if s.phase handle = .ended then some { s with drop := .joining none } else none
      | _ => none

/-- A step of one thread. -/
inductive Label
  | handler (t : ThreadId) (action : Action)
  | acceptor (action : AcceptorAction)
  | drop (action : DropAction)
  deriving DecidableEq, Repr

/-- One thread takes a step. -/
def step (maxClients : ℕ) (s : Server) : Label → Option Server
  | .handler t action => handlerStep s t action
  | .acceptor action => acceptorStep maxClients s action
  | .drop action => dropStep s action

end RustCourse.Lesson08
