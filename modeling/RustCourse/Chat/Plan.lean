import RustCourse.Chat.Protocol

/-!
# What a handler does while it holds the clients table

Lessons 08 and 10_parallel keep the writer of every client in the clients table, behind a
lock of its own, and their handlers serve a request under a read guard of the table.
What such a handler does then is a list of lock operations and writes.

A connection is named by the handler that serves it, which is a number.

A plan is data, so what a handler is going to do can be talked about before it is done: the
guards it will ask for, in which order, and the writes that are left.  `Plan.sends` are the
writes without the locks; together with whether the handler bails out they are all that the
answer to a request depends on (`Plan.response`).
-/

namespace RustCourse.Chat

/-! ## Plans -/

/-- What a handler does to the writers of clients. -/
inductive Act
  /-- `client.writer.lock()` for the entry `name` -/
  | lock (name : String)
  /-- the message is written to the connection of a client whose writer is held -/
  | write (connection : ℕ) (msg : ServerToClientMsg)
  /-- the guard of the entry `name` is dropped -/
  | unlock (name : String)
  deriving DecidableEq, Repr

/-- What the handler does for one request under the read guard, and whether it leaves its
loop then. -/
structure Plan where
  acts : List Act
  bail : Bool
  deriving DecidableEq, Repr

/-- `if let Some(client) = clients.get(&name) { client.writer.lock().unwrap().write(msg)?; }` -/
def reply (clients : HashMap String ℕ) (name : String) (msg : ServerToClientMsg) : List Act :=
  match clients.lookup name with
  | some client => [.lock name, .write client msg, .unlock name]
  | none => []

/-- The message `msg` is written to every client in the list, one after the other. -/
def writeAll (clients : List (String × ℕ)) (msg : ServerToClientMsg) : List Act :=
  clients.flatMap fun client => [.lock client.1, .write client.2 msg, .unlock client.1]

/-! ## The answer of a plan -/

/-- The messages an act writes. -/
def Act.sent : Act → Option (ℕ × ServerToClientMsg)
  | .write connection msg => some (connection, msg)
  | _ => none

/-- What the plan writes, and to which connections. -/
def Plan.sends (plan : Plan) : List (ℕ × ServerToClientMsg) :=
  plan.acts.filterMap Act.sent

/-- The answer of a handler that holds the table, if every write succeeds. -/
def Plan.response (plan : Plan) : Response ℕ :=
  ⟨deliveries (plan.acts.filterMap Act.sent), !plan.bail⟩

theorem sent_writeAll (clients : List (String × ℕ)) (msg : ServerToClientMsg) :
    (writeAll clients msg).filterMap Act.sent = clients.map fun client => (client.2, msg) := by
  induction clients with
  | nil => rfl
  | cons client rest ih =>
      rw [List.map_cons, ← ih]
      rfl

theorem sent_reply {registry : HashMap String ℕ} {name : String} {self : ℕ}
    (hself : registry.lookup name = some self) (msg : ServerToClientMsg) :
    (reply registry name msg).filterMap Act.sent = [(self, msg)] := by
  simp only [reply, hself]
  rfl

end RustCourse.Chat
