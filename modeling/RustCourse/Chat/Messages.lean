import Mathlib.Data.Multiset.Basic

/-!
# The messages of the chat protocol

`messages.rs`, which lessons 08, 09, 10 and 10_parallel share word for word.  The
fields `to` and `from` of the source are called `recipient` and `sender` here, since
both words are keywords of Lean.

Strings are kept as they are.  Nothing the servers do depends on what a text or a name says,
only on which names are equal and on how long an encoding is, so both types are data without
further conditions.
-/

namespace RustCourse.Chat

/-- What a client sends (`ClientToServerMsg`). -/
inductive ClientToServerMsg
  | join (name : String)
  | ping
  | listUsers
  | sendDM (recipient message : String)
  | broadcast (message : String)
  deriving DecidableEq, Repr

/-- What the server sends (`ServerToClientMsg`). -/
inductive ServerToClientMsg
  | welcome
  | pong
  | userList (users : List String)
  | message (sender message : String)
  | error (text : String)
  deriving DecidableEq, Repr

end RustCourse.Chat
