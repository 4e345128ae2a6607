import RustCourse.Chat.Messages
import RustCourse.Lesson09.Reader
import RustCourse.Lib.HashMap
import RustCourse.Lib.Transition

/-!
# The lesson 09 chat server

`lessons/09/exercises/src/server.rs`: one thread that waits for readiness events with
`epoll` and handles a batch of them in every `process_events`.  A step is one event of the
batch, up to the message it yields, or the reaction to that message, or the cleanup; a
state of phase `waiting` is one between two calls of `process_events`.  The clients act
at any time: what they send arrives in the receive buffers of the kernel.

A `MessageWriter` is the file descriptor it writes to.  A descriptor is free for the next
connection when neither a client nor a writer holds it.

The functions are those of the source, with `perform` for the list of operations that a handler
returns; a failure stops the list at that operation.  So a handler is a pure function of the
registry, and what the environment answers comes in where the list is performed.
-/

namespace RustCourse.Lesson09

open Chat Transition

/-! ## Descriptors -/

/-- Clients are known by the descriptors of their sockets. -/
abbrev Fd := ℕ

/-! ## Sockets -/

/-- The kernel's side of a connection. -/
structure Socket where
  /-- the receive buffer -/
  incoming : List UInt8
  /-- the peer will not send more -/
  hungUp : Bool
  deriving DecidableEq

/-- What the environment decides about one `read` of a non-blocking socket. -/
inductive ReadChoice
  /-- it hands out this many bytes -/
  | take (n : ℕ)
  /-- there is nothing to hand out -/
  | nothing
  | fails
  deriving DecidableEq, Repr

/-- One `read` of a socket that does not block. -/
def Socket.read (socket : Socket) (free : ℕ) : ReadChoice → Option (ReadOutcome free × Socket)
  | .take n =>
      if h : 0 < n ∧ n ≤ free ∧ n ≤ socket.incoming.length then
        some (.bytes (socket.incoming.take n) (by rw [List.length_take]; omega)
          (by rw [List.length_take]; omega), { socket with incoming := socket.incoming.drop n })
      else none
  | .nothing =>
      -- `Ok(0)` is also the answer to a `read` into an empty buffer
      if free = 0 then some (.eof, socket)
      else if socket.incoming = [] then
        some (if socket.hungUp then .eof else .wouldBlock, socket)
      else none
  | .fails => some (.err, socket)

/-! ## The handlers -/

/-- What a handler does, one after the other. -/
inductive Act
  /-- `writer.send(msg)?` on a connection -/
  | send (connection : Fd) (msg : ServerToClientMsg)
  /-- `client.name = Some(name)`, and the `insert` of a writer to the client's own socket -/
  | register (name : String)
  deriving DecidableEq, Repr

/-- What a handler does with a message. -/
structure Reaction where
  acts : List Act
  /-- whether `Ok(())` is returned if every send succeeds -/
  ok : Bool
  deriving DecidableEq, Repr

/-- `handle_unregistered_client_msg` for the client with the given descriptor. -/
def handleUnregisteredClientMsg (clientWriters : HashMap String Fd) (client : Fd) :
    ClientToServerMsg → Reaction
  | .join name =>
      -- nothing returns after the error
      ⟨(if name ∈ clientWriters then [.send client (.error "Username already taken")] else []) ++
        [.register name, .send client .welcome], true⟩
  | _ => ⟨[.send client (.error "Unexpected message received")], false⟩

/-- `handle_registered_client`; `order` is the order in which the writers are iterated. -/
def handleRegisteredClient (clientWriters : HashMap String Fd) (order : List (String × Fd))
    (name : String) (client : Fd) : ClientToServerMsg → Reaction
  | .join _ => ⟨[.send client (.error "Unexpected message received")], false⟩
  | .ping => ⟨[.send client .pong], true⟩
  | .listUsers => ⟨[.send client (.userList (order.map Prod.fst))], true⟩
  | .sendDM recipient message =>
      if recipient = name then
        ⟨[.send client (.error "Cannot send a DM to yourself")], true⟩
      else
        match clientWriters.lookup recipient with
        | some other => ⟨[.send other (.message name message)], true⟩
        | none => ⟨[.send client (.error s!"User {recipient} does not exist")], true⟩
  | .broadcast message =>
      ⟨(order.filter fun item => item.1 ≠ name).map fun item =>
        .send item.2 (.message name message), true⟩

/-- `handle_client_msg` -/
def handleClientMsg (clientWriters : HashMap String Fd) (order : List (String × Fd))
    (name : Option String) (client : Fd) (msg : ClientToServerMsg) : Reaction :=
  match name with
  | none => handleUnregisteredClientMsg clientWriters client msg
  | some name => handleRegisteredClient clientWriters order name client msg

/-! ## The server -/

/-- A `Client`; its writer is not part of it. -/
structure Client where
  name : Option String
  reader : MessageReader
  connected : Bool
  deriving DecidableEq

/-- A connection that was just accepted. -/
def Client.new : Client := ⟨none, .new, true⟩

/-- The acts of a handler for the client with descriptor `fd`, up to the first send that
fails: the client and the writers after them, and whether every send succeeded. -/
def perform (fd : Fd) : List Act → Option ℕ → Client → HashMap String Fd →
    Client × HashMap String Fd × Bool
  | [], _, client, clientWriters => (client, clientWriters, true)
  | .register name :: rest, failAt, client, clientWriters =>
      perform fd rest failAt { client with name := some name } (clientWriters.insert name fd)
  | .send _ _ :: rest, none, client, clientWriters => perform fd rest none client clientWriters
  | .send _ _ :: rest, some (n + 1), client, clientWriters =>
      perform fd rest (some n) client clientWriters
  | .send _ _ :: _, some 0, client, clientWriters => (client, clientWriters, false)

/-- What `epoll::wait` reports. -/
inductive Event
  | listener
  | socket (fd : Fd)
  deriving DecidableEq, Repr

/-- What the poller thread does next. -/
inductive Phase
  /-- `process_events` is not running -/
  | waiting
  /-- the next event of the batch, or the cleanup after the last one -/
  | handling (rest : List Event)
  /-- `handle_client_msg`, with the message `try_recv_msg` returned -/
  | reacting (fd : Fd) (msg : ClientToServerMsg) (rest : List Event)
  /-- the thread returned `Ok`, or else it returned an error or panicked -/
  | ended (ok : Bool)
  deriving DecidableEq, Repr

/-- The maps of the server, its sockets, and where the loop is. -/
structure Server where
  phase : Phase
  clients : HashMap Fd Client
  rejectedClients : HashMap Fd Client
  clientWriters : HashMap String Fd
  /-- the sockets registered with `epoll` -/
  interest : Finset Fd
  socket : Fd → Socket

/-- The server listens. -/
def Server.init : Server where
  phase := .waiting
  clients := ∅
  rejectedClients := ∅
  clientWriters := ∅
  interest := ∅
  socket _ := ⟨[], false⟩

/-- What `listener.accept()` and the setup of the connection come to. -/
inductive Accepted
  | client (fd : Fd)
  | wouldBlock
  | err
  deriving DecidableEq, Repr

/-- What happens at the sockets, and what the loop does next. -/
inductive Label
  /-- bytes arrive at a socket -/
  | arrive (fd : Fd) (bytes : List UInt8)
  /-- the peer of a socket closes its side -/
  | hangUp (fd : Fd)
  /-- the poller thread finds `terminated` set -/
  | terminate
  /-- `epoll::wait` returns a batch, or fails -/
  | wait (got : Option (List Event))
  /-- `accept_and_setup_client` -/
  | accept (got : Accepted)
  /-- `try_recv_msg`, with the reads it makes -/
  | tryRecvMsg (reads : List ReadChoice)
  /-- `handle_client_msg`: the order of the writers, and which of the sends fails -/
  | handleClientMsg (order : List (String × Fd)) (failAt : Option ℕ)
  /-- a rejected client is told "Server full" -/
  | dismiss (ok : Bool)
  /-- the descriptor belongs to nobody -/
  | skip
  /-- `cleanup_disconnected`: the order of the clients, and whether every `shutdown` succeeds -/
  | cleanup (order : List (Fd × Client)) (ok : Bool)
  deriving DecidableEq

namespace Server

/-- The poller thread ends and drops the server. -/
def stop (s : Server) (ok : Bool) : Server where
  phase := .ended ok
  clients := ∅
  rejectedClients := ∅
  clientWriters := ∅
  interest := ∅
  socket := s.socket

/-- The entry of a client is changed. -/
def setClient (s : Server) (fd : Fd) (client : Client) : Server :=
  { s with clients := s.clients.insert fd client }

/-- The descriptor is in use. -/
def Open (s : Server) (fd : Fd) : Prop :=
  fd ∈ s.clients ∨ fd ∈ s.rejectedClients ∨ fd ∈ s.clientWriters.entries.map fun entry => entry.2

instance (s : Server) (fd : Fd) : Decidable (s.Open fd) := by
  unfold Open
  infer_instance

end Server

/-- `cleanup_disconnected` for one client: what it does to the writers. -/
def releaseName (clientWriters : HashMap String Fd) (client : Client) : HashMap String Fd :=
  match client.connected, client.name with
  | false, some name => clientWriters.erase name
  | _, _ => clientWriters

/-- `accept_and_setup_client` -/
def acceptAndSetupClient (maxClients : ℕ) (s : Server) : Accepted → Option Server
  | .client fd =>
      if s.Open fd then none
      else
        let s := { s with
          interest := insert fd s.interest
          socket := Function.update s.socket fd ⟨[], false⟩ }
        if maxClients ≤ s.clients.keys.card then
          some { s with rejectedClients := s.rejectedClients.insert fd .new }
        else some (s.setClient fd .new)
  | .wouldBlock => some s
  | .err => some (s.stop false)

/-- `try_recv_msg`, from what `reader.recv()` returned. -/
def tryRecvMsg (s : Server) (fd : Fd) (client : Client) (rest : List Event) :
    Received ClientToServerMsg → Server
  | .msg msg => { s.setClient fd client with phase := .reacting fd msg rest }
  | .wouldBlock => { s.setClient fd client with phase := .handling rest }
  | .tooLarge | .malformed | .err | .eof =>
      { s.setClient fd { client with connected := false } with phase := .handling rest }

/-- The loop goes on, or bytes arrive. -/
def step (decode : List UInt8 → Option ClientToServerMsg) (maxClients : ℕ) (s : Server) :
    Label → Option Server
  | .arrive fd bytes =>
      if (s.socket fd).hungUp then none
      else
        let socket := { s.socket fd with incoming := (s.socket fd).incoming ++ bytes }
        some { s with socket := Function.update s.socket fd socket }
  | .hangUp fd =>
      some { s with socket := Function.update s.socket fd { s.socket fd with hungUp := true } }
  | .terminate => if s.phase = .waiting then some (s.stop true) else none
  | .wait got =>
      if s.phase = .waiting then
        match got with
        | some batch =>
            if batch.length ≤ 1024 then some { s with phase := .handling batch } else none
        | none => some (s.stop false)
      else none
  | .accept got =>
      match s.phase with
      | .handling (.listener :: rest) =>
          acceptAndSetupClient maxClients { s with phase := .handling rest } got
      | _ => none
  | .tryRecvMsg reads =>
      match s.phase with
      | .handling (.socket fd :: rest) =>
          match s.clients.lookup fd with
          | some client =>
              (client.reader.recv decode Socket.read reads (s.socket fd)).map
                fun (got, reader, socket) =>
                  tryRecvMsg { s with socket := Function.update s.socket fd socket } fd
                    { client with reader } rest got
          | none => none
      | _ => none
  | .handleClientMsg order failAt =>
      match s.phase with
      | .reacting fd msg rest =>
          match s.clients.lookup fd with
          | some client =>
              if s.clientWriters.Enumerates order then
                let reaction := handleClientMsg s.clientWriters order client.name fd msg
                let (client, clientWriters, sent) :=
                  perform fd reaction.acts failAt client s.clientWriters
                let connected := client.connected && (sent && reaction.ok)
                some { s.setClient fd { client with connected } with
                  phase := .handling rest
                  clientWriters }
              else none
          | none => none
      | _ => none
  | .dismiss ok =>
      match s.phase with
      | .handling (.socket fd :: rest) =>
          match s.clients.lookup fd, s.rejectedClients.lookup fd with
          | none, some client =>
              if ok then
                some { s with
                  phase := .handling rest
                  rejectedClients :=
                    s.rejectedClients.insert fd { client with connected := false } }
              else some (s.stop false)
          | _, _ => none
      | _ => none
  | .skip =>
      match s.phase with
      | .handling (.socket fd :: rest) =>
          if fd ∈ s.clients ∨ fd ∈ s.rejectedClients then none
          else some { s with phase := .handling rest }
      | _ => none
  | .cleanup order ok =>
      if s.phase = .handling [] ∧ s.clients.Enumerates order then
        if ok then
          some { s with
            phase := .waiting
            clients := s.clients.retain fun _ client => client.connected
            clientWriters := (order.map Prod.snd).foldl releaseName s.clientWriters
            interest := s.interest.filter fun fd => (s.clients.lookup fd).all Client.connected }
        else if order.any fun item => !item.2.connected then some (s.stop false)
        else none
      else none

end RustCourse.Lesson09
