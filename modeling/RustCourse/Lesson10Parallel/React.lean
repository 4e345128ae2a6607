import RustCourse.Chat.Plan

/-!
# The request handler of the lesson 10_parallel chat server

`react_client_msg` of `lessons/10_parallel/exercises/src/server.rs`.  The clients table is
behind an `RwLock` and holds the writers behind a `Mutex` each, as in lesson 08; every arm
takes its own read guard.

The answer is a plan in the sense of `Chat/Plan`, and it is the answer of the protocol as long
as the client is registered under its own name (`reactClientMsg_response`).
-/

namespace RustCourse.Lesson10Parallel

open Chat

/-! ## The handler of a request -/

/-- `react_client_msg`, from the read guard on; `order` is the order in which the table is
iterated. -/
def reactClientMsg (clients : HashMap String ℕ) (order : List (String × ℕ)) (name : String) :
    ClientToServerMsg → Plan
  | .ping => ⟨reply clients name .pong, false⟩
  | .listUsers => ⟨reply clients name (.userList (order.map Prod.fst)), false⟩
  | .broadcast message =>
      ⟨writeAll (order.filter fun item => item.1 ≠ name) (.message name message), false⟩
  | .sendDM recipient message =>
      match clients.lookup name, clients.lookup recipient with
      | some writer, target =>
          if recipient = name then
            ⟨writeAll [(name, writer)] (.error "Cannot send a DM to yourself"), false⟩
          else
            match target with
            | none =>
                ⟨writeAll [(name, writer)] (.error s!"User {recipient} does not exist"), false⟩
            | some target => ⟨writeAll [(recipient, target)] (.message name message), false⟩
      | none, some target => ⟨writeAll [(recipient, target)] (.message name message), false⟩
      | none, none => ⟨[], false⟩
  | .join _ =>
      -- it bails out only if it finds its own entry
      match clients.lookup name with
      | some writer => ⟨writeAll [(name, writer)] (.error "Unexpected message received"), true⟩
      | none => ⟨[], false⟩

section Answer

variable {clients : HashMap String ℕ} {order : List (String × ℕ)} {name : String} {self : ℕ}

/-- A handler whose client is registered gives the answer the protocol asks for. -/
theorem reactClientMsg_response (hself : clients.lookup name = some self)
    (horder : clients.Enumerates order) (msg : ClientToServerMsg) :
    (reactClientMsg clients order name msg).response = respond clients name self msg := by
  unfold Plan.response
  cases msg with
  | join other =>
      simp only [reactClientMsg, hself, sent_writeAll, respond]
      rfl
  | ping =>
      simp only [reactClientMsg, sent_reply hself, respond]
      rfl
  | listUsers =>
      simp only [reactClientMsg, sent_reply hself, respond]
      rw [deliveries_singleton, content_userList horder]
      rfl
  | sendDM recipient message =>
      simp only [reactClientMsg, hself, respond]
      by_cases hown : recipient = name
      · simp only [hown, if_true]
        rfl
      · simp only [hown, if_false]
        cases clients.lookup recipient <;> rfl
  | broadcast message =>
      simp only [reactClientMsg, sent_writeAll, respond]
      rw [deliveries_others horder]
      rfl

end Answer

end RustCourse.Lesson10Parallel
