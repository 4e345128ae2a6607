import RustCourse.Lesson10Parallel.React
import RustCourse.Lib.FairLock
import RustCourse.Lib.Transition

/-!
# The lesson 10_parallel chat server

`lessons/10_parallel/exercises/src/server.rs`: a task per client on a runtime with many
threads.  The tasks share the clients table behind a `tokio::sync::RwLock`, and the writer
of every client is behind a `tokio::sync::Mutex`, which its task creates and `insert` moves
into the table.  Both locks are fair: a request goes to the end of the queue.

Tasks run in parallel, so they are interleaved at single operations.  To get a guard takes
two steps, the request, which puts the task into the queue of the lock, and the moment at
which the task goes on with the guard.  What a task then does with the guarded data is one
step with the drop of the guard, since nobody can look in between.

A connection, and the mutex around its writer, are named by the task that serves it.
-/

namespace RustCourse.Lesson10Parallel

open Chat Transition

/-! ## Tasks and locks -/

/-- Tasks, and the connections they serve, are named by numbers. -/
abbrev TaskId := ℕ

/-- A lock of the server. -/
inductive LockId
  /-- the `RwLock` of the clients table -/
  | clients
  /-- the `Mutex` of the writer to a connection -/
  | writer (connection : TaskId)
  deriving DecidableEq, Repr

/-! ## The handler -/

/-- What a handler task acquires a lock for. -/
inductive Work
  /-- `join_client`: `clients.read().await.contains_key(&name)` -/
  | check (name : String)
  /-- `join_client`: sends an error to its own client, and fails -/
  | refuse (reply : ServerToClientMsg)
  /-- `join_client`: sends `Welcome` to its own client -/
  | welcome (name : String)
  /-- `handle_client`: `clients.write().await`, for the `insert` -/
  | insert (name : String)
  /-- `react_client_msg`: `clients.read().await`, for the whole reaction -/
  | react (name : String) (msg : ClientToServerMsg)
  /-- `react_client_msg`: sends `msg`, and then the `rest`, under the read guard -/
  | send (name : String) (connection : TaskId) (msg : ServerToClientMsg)
      (rest : List (TaskId × ServerToClientMsg)) (bail : Bool)
  /-- `handle_client`: `clients.write().await.remove(&name)` -/
  | leave (name : String)
  deriving DecidableEq, Repr

namespace Work

/-- The lock a task needs for its work. -/
def lock (self : TaskId) : Work → LockId
  | .check _ => .clients
  | .refuse _ => .writer self
  | .welcome _ => .writer self
  | .insert _ => .clients
  | .react _ _ => .clients
  | .send _ connection _ _ _ => .writer connection
  | .leave _ => .clients

/-- Reading the table is shared, and everything else is exclusive. -/
def mode : Work → Mode
  | .check _ => .shared
  | .react _ _ => .shared
  | _ => .exclusive

/-- The message it writes under the guard of a writer. -/
def write (self : TaskId) : Work → Option (TaskId × ServerToClientMsg)
  | .refuse reply => some (self, reply)
  | .welcome _ => some (self, .welcome)
  | .send _ connection msg _ _ => some (connection, msg)
  | _ => none

end Work

/-- How far it is with the lock. -/
inductive Stage
  /-- will ask for it next -/
  | asking
  /-- stands in the queue -/
  | queued
  /-- has the guard -/
  | holding
  deriving DecidableEq, Repr

/-- What a handler task does next. -/
inductive Phase
  | absent
  /-- `join_client`: the `select!` over `reader.recv()` and the two second sleep -/
  | joining
  /-- `handle_client`: `reader.recv()` -/
  | receiving (name : String)
  | doing (work : Work) (stage : Stage)
  /-- `react_client_msg`: drops the read guard after the last send, and bails out or not -/
  | reacted (name : String) (bail : Bool)
  /-- returned, panicked or cancelled -/
  | ended
  deriving DecidableEq, Repr

/-- What `reader.recv()` yields, or that its assertion fails. -/
inductive Received
  | msg (msg : ClientToServerMsg)
  | err
  | eof
  | panics
  deriving DecidableEq, Repr

/-- `join_client`, from what the client sent first to the first lock. -/
def joinClient : Received → Phase
  | .msg (.join name) => .doing (.check name) .asking
  | .msg _ => .doing (.refuse (.error "Unexpected message received")) .asking
  | .err => .ended
  | .eof => .doing (.refuse (.error "Connection closed")) .asking
  | .panics => .ended

/-- The loop of `handle_client`, from `reader.recv()` to the next lock. -/
def handleClient (name : String) : Received → Phase
  | .msg msg => .doing (.react name msg) .asking
  | .err => .doing (.leave name) .asking
  | .eof => .doing (.leave name) .asking
  | .panics => .ended

/-- `react_client_msg`, before the next send. -/
def reacting (name : String) (bail : Bool) : List (TaskId × ServerToClientMsg) → Phase
  | [] => .reacted name bail
  | (connection, msg) :: rest => .doing (.send name connection msg rest bail) .asking

/-! ## The server -/

/-- Where `run_server` is suspended. -/
inductive Acceptor
  /-- the `select!` over the stop signal, `accept` and `join_next` -/
  | listening
  /-- writing "Server is full" to a connection it will not serve -/
  | refusing
  | stopped
  deriving DecidableEq, Repr

/-- What the tasks share, and where each of them is. -/
structure Server where
  acceptor : Acceptor
  /-- the `JoinSet`: spawned tasks that were not reaped yet -/
  joinSet : List TaskId
  clients : HashMap String TaskId
  phase : TaskId → Phase
  lock : LockId → FairLock TaskId

/-- The server listens, and nobody was accepted. -/
def Server.init : Server where
  acceptor := .listening
  joinSet := []
  clients := ∅
  phase _ := .absent
  lock _ := .free

/-- What a step is, with all that the environment decides. -/
inductive Label
  /-- `listener.accept()` yields a connection; it is served as task `t` if at all -/
  | accept (t : TaskId)
  /-- the write of "Server is full" ends -/
  | refused (ok : Bool)
  /-- `join_next` yields an ended task -/
  | reap (t : TaskId)
  /-- the stop signal arrives -/
  | stop
  /-- the runtime drops a task of the dropped `JoinSet` -/
  | cancel (t : TaskId)
  /-- the two second sleep of `join_client` ends -/
  | timeout (t : TaskId)
  /-- `reader.recv()` yields -/
  | recv (t : TaskId) (got : Received)
  /-- the task asks for the lock it needs -/
  | request (t : TaskId)
  /-- it goes on with the guard -/
  | grant (t : TaskId)
  /-- it uses the table; iterating over it goes in the given order -/
  | act (t : TaskId) (order : List (String × TaskId))
  /-- its write ends -/
  | wrote (t : TaskId) (ok : Bool)
  deriving DecidableEq, Repr

namespace Server

/-- A task goes on. -/
def setPhase (s : Server) (t : TaskId) (phase : Phase) : Server :=
  { s with phase := Function.update s.phase t phase }

/-- Task `t` gives the lock back. -/
def unlock (s : Server) (t : TaskId) (id : LockId) : Server :=
  { s with lock := Function.update s.lock id ((s.lock id).release t) }

end Server

open Server

/-- `listener.accept()` yields a connection. -/
def accept (maxClients : ℕ) (s : Server) (t : TaskId) : Option Server :=
  if s.acceptor = .listening ∧ s.phase t = .absent then
    if maxClients ≤ s.joinSet.length then some { s with acceptor := .refusing }
    else some { s.setPhase t .joining with joinSet := t :: s.joinSet }
  else none

/-- What a handler does under a guard of the table. -/
def act (s : Server) (t : TaskId) (order : List (String × TaskId)) : Option Server :=
  match s.phase t with
  | .doing (.check name) .holding =>
      let next : Work :=
        if name ∈ s.clients then .refuse (.error "Username already taken") else .welcome name
      some ((s.unlock t .clients).setPhase t (.doing next .asking))
  | .doing (.insert name) .holding =>
      some { (s.unlock t .clients).setPhase t (.receiving name) with
        clients := s.clients.insert name t }
  | .doing (.react name msg) .holding =>
      if s.clients.Enumerates order then
        let plan := reactClientMsg s.clients order name msg
        some (s.setPhase t (reacting name plan.bail plan.sends))
      else none
  | .reacted name bail =>
      let next : Phase := if bail then .doing (.leave name) .asking else .receiving name
      some ((s.unlock t .clients).setPhase t next)
  | .doing (.leave name) .holding =>
      some { (s.unlock t .clients).setPhase t .ended with clients := s.clients.erase name }
  | _ => none

/-- What a handler does after a write, under the guard of the writer. -/
def wrote (s : Server) (t : TaskId) (ok : Bool) : Option Server :=
  match s.phase t with
  | .doing (.refuse _) .holding => some ((s.unlock t (.writer t)).setPhase t .ended)
  | .doing (.welcome name) .holding =>
      let next : Phase := if ok then .doing (.insert name) .asking else .ended
      some ((s.unlock t (.writer t)).setPhase t next)
  | .doing (.send name connection _ rest bail) .holding =>
      if ok then some ((s.unlock t (.writer connection)).setPhase t (reacting name bail rest))
      else
        -- the `?` drops the read guard too
        some (((s.unlock t (.writer connection)).unlock t .clients).setPhase t
          (.doing (.leave name) .asking))
  | _ => none

/-- One task, or the loop of `run_server`, takes a step. -/
def step (maxClients : ℕ) (s : Server) : Label → Option Server
  | .accept t => accept maxClients s t
  | .refused ok =>
      if s.acceptor = .refusing then
        -- the `?` returns, as the stop signal does
        some { s with acceptor := if ok then .listening else .stopped }
      else none
  | .reap t =>
      if s.acceptor = .listening ∧ t ∈ s.joinSet ∧ s.phase t = .ended then
        some { s with joinSet := s.joinSet.erase t }
      else none
  | .stop => if s.acceptor = .listening then some { s with acceptor := .stopped } else none
  | .cancel t =>
      if s.acceptor = .stopped ∧ s.phase t ≠ .absent ∧ s.phase t ≠ .ended then
        some { s.setPhase t .ended with lock := fun id => (s.lock id).release t }
      else none
  | .timeout t =>
      match s.phase t with
      | .joining =>
          some (s.setPhase t (.doing (.refuse (.error "Timed out waiting for Join")) .asking))
      | _ => none
  | .recv t got =>
      match s.phase t with
      | .joining => some (s.setPhase t (joinClient got))
      | .receiving name => some (s.setPhase t (handleClient name got))
      | _ => none
  | .request t =>
      match s.phase t with
      | .doing work .asking =>
          let queued := (s.lock (work.lock t)).request t work.mode
          some { s.setPhase t (.doing work .queued) with
            lock := Function.update s.lock (work.lock t) queued }
      | _ => none
  | .grant t =>
      match s.phase t with
      | .doing work .queued =>
          if (s.lock (work.lock t)).Admits t then some (s.setPhase t (.doing work .holding))
          else none
      | _ => none
  | .act t order => act s t order
  | .wrote t ok => wrote s t ok

end RustCourse.Lesson10Parallel
