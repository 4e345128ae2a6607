import RustCourse.Lib.HashMap
import RustCourse.Lib.Mutex
import RustCourse.Lib.Transition

/-!
# The threaded server of the network chat

`archive/2023/projects/network-chat/02/src/bin/chat.rs`, `chat.rs` and `server.rs`: an accept
loop and a thread per client, with the table of the clients behind a `Mutex`.  `add_client`,
`remove_client` and `broadcast` are called with the guard of the `Mutex` and begin by writing to
every other client.  They unwrap the result of each write, and a thread that panics with the
guard poisons the `Mutex` for all that lock it afterwards and unwrap that.

Threads are interleaved at single reads, writes, and operations on the lock and the join handles.
Everything that a call does under the guard it does as the party that called it, so there is one
set of phases for the accept loop and the threads.  When the accept loop has ended the process is
about to, and until it does the threads go on.
-/

namespace RustCourse.NetworkChat.Stage02

open Transition

/-! ## Messages and calls -/

/-- A `SocketAddr`, as it is displayed. -/
abbrev SocketAddr := String

/-- What the server sends. -/
inductive ServerToClientMsg
  | message (text : String)
  deriving DecidableEq, Repr

/-- What a client sends. -/
inductive ClientToServerMsg
  | message (text : String)
  deriving DecidableEq, Repr

/-- `MAX_CLIENTS` -/
def maxClients : ℕ := 3

/-- The accept loop, or the thread of a client; the number of a thread is also that of its
socket. -/
inductive Party
  | acceptLoop
  | client (n : ℕ)
  deriving DecidableEq, Repr

/-- A call of a method of `Chat`. -/
inductive Call
  | addClient (address : SocketAddr) (socket : ℕ)
  | removeClient (address : SocketAddr)
  | broadcast (source : SocketAddr) (message : String)
  deriving DecidableEq, Repr

namespace Call

/-- Who is not told. -/
def source : Call → SocketAddr
  | addClient address _ => address
  | removeClient address => address
  | broadcast source _ => source

/-- The text of the broadcast that the call begins with. -/
def message : Call → String
  | addClient address _ => s!"[{address} connected]"
  | removeClient address => s!"[{address} disconnected]"
  | broadcast _ message => message

/-- What every other client is sent. -/
def content (call : Call) : ServerToClientMsg :=
  .message s!"{call.source}: {call.message}"

end Call

/-! ## The server -/

/-- What a party does next. -/
inductive Phase
  | absent
  /-- `server.accept()` -/
  | accepting
  /-- looks at the next of the handles `rest`; `kept` are those of threads that run -/
  | reaping (address : SocketAddr) (kept rest : List ℕ)
  /-- spawns the thread of a client it has added -/
  | spawning (address : SocketAddr) (socket : ℕ)
  /-- `reader.next()` -/
  | reading (address : SocketAddr)
  /-- `chat.lock().unwrap()` -/
  | locking (call : Call)
  /-- has the guard, and writes to the first of `rest` -/
  | sending (call : Call) (rest : List (SocketAddr × ℕ))
  | ended
  | panicked
  deriving DecidableEq, Repr

/-- It has the guard. -/
def Phase.holds : Phase → Prop
  | .sending _ _ => True
  | _ => False

/-- What is behind the `Mutex`, and where every party is. -/
structure Server where
  clients : HashMap SocketAddr ℕ
  holder : Option Party
  poisoned : Bool
  phase : Party → Phase
  /-- `connected_clients` -/
  handles : List ℕ
  /-- the threads spawned so far are those below this number -/
  spawned : ℕ
  /-- what was written to which socket -/
  sent : List (ℕ × ServerToClientMsg)

namespace Server

/-- The server listens. -/
def init : Server where
  clients := ∅
  holder := none
  poisoned := false
  phase p := if p = .acceptLoop then .accepting else .absent
  handles := []
  spawned := 0
  sent := []

/-- A party goes on. -/
def setPhase (s : Server) (p : Party) (phase : Phase) : Server :=
  { s with phase := Function.update s.phase p phase }

/-- A party panics with the guard. -/
def poison (s : Server) (p : Party) : Server :=
  { s.setPhase p .panicked with holder := none, poisoned := true }

/-- The rest of a call, behind its broadcast, and the drop of the guard. -/
def finish (s : Server) (p : Party) : Call → Server
  | .addClient address socket =>
      -- `assert!(self.clients.insert(..).is_none())`
      if address ∈ s.clients then
        { s.poison p with clients := s.clients.insert address socket }
      else
        { s.setPhase p (.spawning address socket) with
          clients := s.clients.insert address socket
          holder := none }
  | .removeClient address =>
      -- `assert!(self.clients.remove(&address).is_some())`
      if address ∈ s.clients then
        { s.setPhase p .ended with clients := s.clients.erase address, holder := none }
      else s.poison p
  | .broadcast source _ => { s.setPhase p (.reading source) with holder := none }

end Server

/-! ## Steps -/

/-- What `reader.next()` returns. -/
inductive Received
  | msg (msg : ClientToServerMsg)
  /-- "Bad client!" -/
  | err
  | eof
  deriving DecidableEq, Repr

/-- What a party does, with all that the environment decides. -/
inductive Action
  /-- `server.accept()` returns the address of a client, or fails -/
  | accept (client : Option SocketAddr)
  /-- `handle.is_finished()` of the next handle; a thread that is over may not be finished yet -/
  | reap (finished : Bool)
  /-- the decision behind the last handle, on how many threads are left -/
  | count
  | spawn
  | read (got : Received)
  /-- the lock is granted; iterating over the table goes in the given order -/
  | lock (order : List (SocketAddr × ℕ))
  /-- a write ends -/
  | wrote (ok : Bool)
  /-- the broadcast is over -/
  | finish
  deriving DecidableEq, Repr

/-- A step of one party. -/
abbrev Label := Party × Action

/-- One party takes a step. -/
def step (s : Server) : Label → Option Server
  | (p, .accept client) =>
      match s.phase p, client with
      | .accepting, none => some (s.setPhase p .ended)
      | .accepting, some address => some (s.setPhase p (.reaping address [] s.handles))
      | _, _ => none
  | (p, .reap finished) =>
      match s.phase p with
      | .reaping address kept (n :: rest) =>
          if finished then
            match s.phase (.client n) with
            | .ended => some (s.setPhase p (.reaping address kept rest))
            -- `handle.join().unwrap()`
            | .panicked => some (s.setPhase p .panicked)
            | _ => none
          else some (s.setPhase p (.reaping address (kept ++ [n]) rest))
      | _ => none
  | (p, .count) =>
      match s.phase p with
      | .reaping address kept [] =>
          let next := if maxClients ≤ kept.length then .accepting
            else .locking (.addClient address s.spawned)
          some { s.setPhase p next with handles := kept }
      | _ => none
  | (p, .spawn) =>
      match s.phase p with
      | .spawning address n =>
          some { (s.setPhase p .accepting).setPhase (.client n) (.reading address) with
            handles := s.handles ++ [n]
            spawned := s.spawned + 1 }
      | _ => none
  | (p, .read got) =>
      match s.phase p, got with
      | .reading address, .msg (.message text) =>
          some (s.setPhase p (.locking (.broadcast address text)))
      | .reading _, .err => some s
      | .reading address, .eof => some (s.setPhase p (.locking (.removeClient address)))
      | _, _ => none
  | (p, .lock order) =>
      match s.phase p with
      | .locking call =>
          if s.holder ≠ none then none
          else if s.poisoned then some (s.setPhase p .panicked)
          else if s.clients.Enumerates order then
            let others := order.filter fun item => item.1 ≠ call.source
            some { s.setPhase p (.sending call others) with holder := some p }
          else none
      | _ => none
  | (p, .wrote ok) =>
      match s.phase p with
      | .sending call ((_, socket) :: rest) =>
          if ok then
            some { s.setPhase p (.sending call rest) with
              sent := s.sent ++ [(socket, call.content)] }
          -- `writer.send(..).unwrap()`
          else some (s.poison p)
      | _ => none
  | (p, .finish) =>
      match s.phase p with
      | .sending call [] => some (s.finish p call)
      | _ => none

/-! ## What a step can do -/

variable {s s' : Server} {p q : Party}

@[simp] theorem Server.setPhase_phase (phase : Phase) :
    (s.setPhase p phase).phase = Function.update s.phase p phase := rfl

@[simp] theorem Server.poison_phase : (s.poison p).phase = Function.update s.phase p .panicked :=
  rfl

section Finish

variable {address : SocketAddr} {socket : ℕ}

theorem Server.finish_addClient (hnew : address ∉ s.clients) :
    s.finish p (.addClient address socket) =
      { s.setPhase p (.spawning address socket) with
        clients := s.clients.insert address socket
        holder := none } :=
  if_neg hnew

theorem Server.finish_addClient_again (hmem : address ∈ s.clients) :
    s.finish p (.addClient address socket) =
      { s.poison p with clients := s.clients.insert address socket } :=
  if_pos hmem

theorem Server.finish_removeClient (hmem : address ∈ s.clients) :
    s.finish p (.removeClient address) =
      { s.setPhase p .ended with clients := s.clients.erase address, holder := none } :=
  if_pos hmem

theorem Server.finish_removeClient_again (hgone : address ∉ s.clients) :
    s.finish p (.removeClient address) = s.poison p :=
  if_neg hgone

end Finish

/-- **What a party can do.** -/
inductive Moved (s : Server) (p : Party) : Action → Server → Prop
  | acceptFailed : s.phase p = .accepting → Moved s p (.accept none) (s.setPhase p .ended)
  | accepted {address} : s.phase p = .accepting →
      Moved s p (.accept (some address)) (s.setPhase p (.reaping address [] s.handles))
  | joined {address kept n rest} : s.phase p = .reaping address kept (n :: rest) →
      s.phase (.client n) = .ended →
      Moved s p (.reap true) (s.setPhase p (.reaping address kept rest))
  | joinPanicked {address kept n rest} : s.phase p = .reaping address kept (n :: rest) →
      s.phase (.client n) = .panicked → Moved s p (.reap true) (s.setPhase p .panicked)
  | kept {address kept n rest} : s.phase p = .reaping address kept (n :: rest) →
      Moved s p (.reap false) (s.setPhase p (.reaping address (kept ++ [n]) rest))
  | full {address kept} : s.phase p = .reaping address kept [] →
      Moved s p .count { s.setPhase p .accepting with handles := kept }
  | admitted {address kept} : s.phase p = .reaping address kept [] →
      Moved s p .count
        { s.setPhase p (.locking (.addClient address s.spawned)) with handles := kept }
  | spawned {address n} : s.phase p = .spawning address n →
      Moved s p .spawn
        { (s.setPhase p .accepting).setPhase (.client n) (.reading address) with
          handles := s.handles ++ [n]
          spawned := s.spawned + 1 }
  | received {address text} : s.phase p = .reading address →
      Moved s p (.read (.msg (.message text)))
        (s.setPhase p (.locking (.broadcast address text)))
  | unread {address} : s.phase p = .reading address → Moved s p (.read .err) s
  | closed {address} : s.phase p = .reading address →
      Moved s p (.read .eof) (s.setPhase p (.locking (.removeClient address)))
  | lockPanicked {call order} : s.phase p = .locking call → s.holder = none →
      s.poisoned = true → Moved s p (.lock order) (s.setPhase p .panicked)
  | locked {call order} : s.phase p = .locking call → s.holder = none → s.poisoned = false →
      s.clients.Enumerates order →
      Moved s p (.lock order)
        { s.setPhase p (.sending call (order.filter fun item => item.1 ≠ call.source)) with
          holder := some p }
  | wrote {call address socket rest} : s.phase p = .sending call ((address, socket) :: rest) →
      Moved s p (.wrote true)
        { s.setPhase p (.sending call rest) with sent := s.sent ++ [(socket, call.content)] }
  | writeFailed {call item rest} : s.phase p = .sending call (item :: rest) →
      Moved s p (.wrote false) (s.poison p)
  | finished {call} : s.phase p = .sending call [] → Moved s p .finish (s.finish p call)

theorem moved_of_step {action : Action} (h : step s (p, action) = some s') :
    Moved s p action s' := by
  -- the branches of `step` in its order, each as the case of `Moved` it makes
  cases action with
  | accept client =>
      simp only [step] at h
      split at h
      · next hphase =>
          cases h
          exact .acceptFailed hphase
      · next hphase =>
          cases h
          exact .accepted hphase
      · exact nomatch h
  | reap finished =>
      simp only [step] at h
      split at h
      · next hphase =>
          cases finished with
          | true =>
              simp only [if_true] at h
              split at h
              · next hended =>
                  cases h
                  exact .joined hphase hended
              · next hpanicked =>
                  cases h
                  exact .joinPanicked hphase hpanicked
              · exact nomatch h
          | false =>
              cases h
              exact .kept hphase
      · exact nomatch h
  | count =>
      simp only [step] at h
      split at h
      · next hphase =>
          split at h
          · cases h
            exact .full hphase
          · cases h
            exact .admitted hphase
      · exact nomatch h
  | spawn =>
      simp only [step] at h
      split at h
      · next hphase =>
          cases h
          exact .spawned hphase
      · exact nomatch h
  | read got =>
      simp only [step] at h
      split at h
      · next hphase =>
          cases h
          exact .received hphase
      · next hphase =>
          cases h
          exact .unread hphase
      · next hphase =>
          cases h
          exact .closed hphase
      · exact nomatch h
  | lock order =>
      simp only [step] at h
      split at h
      · next hphase =>
          split at h
          · exact nomatch h
          · next hfree =>
              have hfree := not_not.mp hfree
              split at h
              · next hpoisoned =>
                  cases h
                  exact .lockPanicked hphase hfree hpoisoned
              · next hclean =>
                  split at h
                  · next horder =>
                      cases h
                      exact .locked hphase hfree (Bool.not_eq_true _ ▸ hclean) horder
                  · exact nomatch h
      · exact nomatch h
  | wrote ok =>
      simp only [step] at h
      split at h
      · next hphase =>
          cases ok with
          | true =>
              cases h
              exact .wrote hphase
          | false =>
              cases h
              exact .writeFailed hphase
      · exact nomatch h
  | finish =>
      simp only [step] at h
      split at h
      · next hphase =>
          cases h
          exact .finished hphase
      · exact nomatch h

end RustCourse.NetworkChat.Stage02
