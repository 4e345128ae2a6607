import RustCourse.Chat.Protocol
import RustCourse.Lesson08.Server
import RustCourse.Lesson09.Server
import RustCourse.Lesson10.Server
import RustCourse.Lesson10Parallel.React

/-!
# The four request handlers agree

Lessons 08, 09, 10 and 10_parallel each have a handler for the requests of a joined client.
They look names up in different orders, lock different things and hand messages over in
different ways.  `handlers_agree` says that, for a client registered under its own name
and as long as every write succeeds, each of them gives the answer the protocol asks for,
in whatever order it iterates over the registry; so they agree.

## Strategy

A handler is compared with `respond`, request by request, and not with the other handlers.
For a handler with locks the answer is that of its plan (`handleJoined_response`, for the two
lessons that have one).  The order of an iteration shows in a user list and in a broadcast only,
and there `content_userList` and `deliveries_others` forget it.
-/

namespace RustCourse

open Chat

/-! ## The answers of the handlers -/

/-- The messages an act of a lesson 09 handler writes. -/
def Lesson09.Act.sent : Lesson09.Act → Option (ℕ × ServerToClientMsg)
  | .send connection msg => some (connection, msg)
  | .register _ => none

/-- The answer of a lesson 09 handler, if every send succeeds. -/
def Lesson09.Reaction.response (reaction : Lesson09.Reaction) : Response ℕ :=
  ⟨deliveries (reaction.acts.filterMap Lesson09.Act.sent), reaction.ok⟩

/-- The answer of the lesson 10 handler of task `self`, if its write succeeds and the
channels are open; handing a message over to a channel delivers it. -/
def Lesson10.Reaction.response (self : ℕ) : Lesson10.Reaction → Response ℕ
  | .reply msg bail => ⟨deliveries [(self, msg)], !bail⟩
  | .sends targets msg => ⟨deliveries (targets.map fun target => (target, msg)), true⟩

variable {registry : HashMap String ℕ} {order : List (String × ℕ)} {name : String} {self : ℕ}

/-! ## Handlers that hold the table -/

theorem handleJoined_response (hself : registry.lookup name = some self)
    (horder : registry.Enumerates order) (msg : ClientToServerMsg) :
    (Lesson08.handleJoined registry order name msg).response = respond registry name self msg := by
  unfold Plan.response
  cases msg with
  | join other =>
      simp only [Lesson08.handleJoined, sent_reply hself, respond]
      rfl
  | ping =>
      simp only [Lesson08.handleJoined, sent_reply hself, respond]
      rfl
  | listUsers =>
      simp only [Lesson08.handleJoined, sent_reply hself, respond]
      rw [deliveries_singleton, content_userList horder]
      rfl
  | sendDM recipient message =>
      simp only [Lesson08.handleJoined, hself, respond]
      by_cases hown : recipient = name
      · simp only [hown, if_true]
        rfl
      · simp only [hown, if_false]
        cases registry.lookup recipient <;> rfl
  | broadcast message =>
      simp only [Lesson08.handleJoined, sent_writeAll, respond]
      rw [deliveries_others horder]
      rfl

/-! ## Handlers without locks -/

theorem Lesson09.handleRegisteredClient_response (horder : registry.Enumerates order)
    (msg : ClientToServerMsg) :
    (handleRegisteredClient registry order name self msg).response =
      respond registry name self msg := by
  unfold Reaction.response
  cases msg with
  | join other => rfl
  | ping => rfl
  | listUsers =>
      simp only [handleRegisteredClient, respond, ← content_userList horder]
      rfl
  | sendDM recipient message =>
      simp only [handleRegisteredClient, respond]
      by_cases hown : recipient = name
      · simp only [hown, if_true]
        rfl
      · simp only [hown, if_false]
        cases registry.lookup recipient <;> rfl
  | broadcast message =>
      simp only [handleRegisteredClient, respond, List.filterMap_map, Function.comp_def]
      have hsent : (order.filter fun item => item.1 ≠ name).filterMap
          (fun item => Act.sent (.send item.2 (.message name message))) =
          (order.filter fun item => item.1 ≠ name).map
            fun item => (item.2, .message name message) :=
        congrFun (List.filterMap_eq_map ..) _
      rw [hsent, deliveries_others horder]
      rfl

theorem Lesson10.reactClientMsg_response (horder : registry.Enumerates order)
    (msg : ClientToServerMsg) :
    (reactClientMsg registry order name msg).response self = respond registry name self msg := by
  cases msg with
  | join other => rfl
  | ping => rfl
  | listUsers =>
      simp only [reactClientMsg, respond, ← content_userList horder]
      rfl
  | sendDM recipient message =>
      simp only [reactClientMsg, respond]
      by_cases hown : recipient = name
      · simp only [hown, if_true]
        rfl
      · simp only [hown, if_false]
        cases registry.lookup recipient <;> rfl
  | broadcast message =>
      simp only [reactClientMsg, respond, Reaction.response, List.map_map, Function.comp_def]
      rw [deliveries_others horder]
      rfl

/-- **The handlers agree** on every request of a client that is registered under its own
name, whatever the registry and the orders in which they iterate over it: the four of them
deliver what the protocol asks for, and keep or disconnect the client as it says. -/
theorem handlers_agree (hself : registry.lookup name = some self)
    {order08 order09 order10 order10Parallel : List (String × ℕ)}
    (h08 : registry.Enumerates order08) (h09 : registry.Enumerates order09)
    (h10 : registry.Enumerates order10) (h10Parallel : registry.Enumerates order10Parallel)
    (msg : ClientToServerMsg) :
    (Lesson08.handleJoined registry order08 name msg).response = respond registry name self msg ∧
    (Lesson09.handleRegisteredClient registry order09 name self msg).response =
      respond registry name self msg ∧
    (Lesson10.reactClientMsg registry order10 name msg).response self =
      respond registry name self msg ∧
    (Lesson10Parallel.reactClientMsg registry order10Parallel name msg).response =
      respond registry name self msg :=
  ⟨handleJoined_response hself h08 msg, Lesson09.handleRegisteredClient_response h09 msg,
    Lesson10.reactClientMsg_response h10 msg,
    Lesson10Parallel.reactClientMsg_response hself h10Parallel msg⟩

/-- Two clients, iterated over in either order; a broadcast of one is delivered to the other. -/
theorem handlers_agree_broadcast :
    let registry : HashMap String ℕ := Finmap.insert "a" 0 (Finmap.singleton "b" 1)
    let response : Response ℕ := ⟨{(1, .message "a" "hi")}, true⟩
    (Lesson08.handleJoined registry [("a", 0), ("b", 1)] "a" (.broadcast "hi")).response =
      response ∧
    (Lesson09.handleRegisteredClient registry [("b", 1), ("a", 0)] "a" 0
      (.broadcast "hi")).response = response ∧
    (Lesson10.reactClientMsg registry [("a", 0), ("b", 1)] "a" (.broadcast "hi")).response 0 =
      response ∧
    (Lesson10Parallel.reactClientMsg registry [("b", 1), ("a", 0)] "a" (.broadcast "hi")).response =
      response :=
  handlers_agree (by decide) (by decide) (by decide) (by decide) (by decide) (.broadcast "hi")

end RustCourse
