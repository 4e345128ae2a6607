import RustCourse.Chat.Messages
import RustCourse.Lib.HashMap

/-!
# What the protocol asks of a server

The comments in `messages.rs` say what a request of a joined client is answered with, and
to whom.  `respond` is this answer: the deliveries, without an order, and whether the
client stays.

The order of the names in a user list is not important, so the deliveries are compared by
their `Content`, where it is forgotten.

## Strategy

Some requests are answered to the client itself, the others are passed on.  `replyTo` says of a
request and a table which answer that is, if there is one, and `respond_of_replyTo` and
`respond_of_no_reply` split `respond` accordingly.  The handlers of the lessons iterate over a
hash map; what they make of an iteration is compared with the table by `content_userList` and
`deliveries_others`, for every order.
-/

namespace RustCourse.Chat

/-! ## Contents -/

/-- What a message to a client says. -/
inductive Content
  | welcome
  | pong
  | userList (users : Multiset String)
  | message (sender message : String)
  | error (text : String)

/-- What the message tells, up to the order of the names in it. -/
def ServerToClientMsg.content : ServerToClientMsg → Content
  | .welcome => .welcome
  | .pong => .pong
  | .userList users => .userList users
  | .message sender text => .message sender text
  | .error text => .error text

/-- The answer to a request: what is delivered to which connection, and whether the client
that made the request stays. -/
structure Response (C : Type*) where
  deliveries : Multiset (C × Content)
  stays : Bool

variable {C : Type*}

/-! ## The answer to a request -/

/-- **The answer to a request** of the client that joined as `name` from connection
`self`. -/
def respond (registry : HashMap String C) (name : String) (self : C) :
    ClientToServerMsg → Response C
  | .join _ => ⟨{(self, .error "Unexpected message received")}, false⟩
  | .ping => ⟨{(self, .pong)}, true⟩
  | .listUsers => ⟨{(self, .userList registry.keys.val)}, true⟩
  | .sendDM recipient message =>
      if recipient = name then ⟨{(self, .error "Cannot send a DM to yourself")}, true⟩
      else
        match registry.lookup recipient with
        | some other => ⟨{(other, .message name message)}, true⟩
        | none => ⟨{(self, .error s!"User {recipient} does not exist")}, true⟩
  | .broadcast message =>
      ⟨(registry.erase name).entries.map fun client => (client.2, .message name message), true⟩

/-! ## Requests with a reply -/

/-- What the client itself is told in reply to its request, if anything. -/
def replyTo (registry : HashMap String C) (name : String) : ClientToServerMsg → Option Content
  | .join _ => some (.error "Unexpected message received")
  | .ping => some .pong
  | .listUsers => some (.userList registry.keys.val)
  | .sendDM recipient _ =>
      if recipient = name then some (.error "Cannot send a DM to yourself")
      else if recipient ∈ registry then none
      else some (.error s!"User {recipient} does not exist")
  | .broadcast _ => none

/-- A reply is all that a request delivers, and to the client that made it. -/
theorem respond_of_replyTo {registry : HashMap String C} {name : String} {self : C}
    {msg : ClientToServerMsg} {reply : Content} (h : replyTo registry name msg = some reply) :
    (respond registry name self msg).deliveries = {(self, reply)} := by
  cases msg with
  | join | ping | listUsers =>
      cases h
      rfl
  | broadcast => cases h
  | sendDM recipient message =>
      simp only [replyTo] at h
      split at h
      · next hself =>
          cases h
          simp [respond, hself]
      · next hother =>
          split at h <;> cases h
          next hnone =>
            rw [respond, if_neg hother, Finmap.lookup_eq_none.mpr hnone]

/-- A request without a reply delivers messages in the name of the client. -/
theorem respond_of_no_reply {registry : HashMap String C} {name : String} {self : C}
    {msg : ClientToServerMsg} (h : replyTo registry name msg = none) :
    ∀ delivery ∈ (respond registry name self msg).deliveries,
      ∃ text, delivery.2 = .message name text := by
  cases msg with
  | join | ping | listUsers => cases h
  | broadcast message =>
      intro delivery hdelivery
      obtain ⟨client, -, rfl⟩ := Multiset.mem_map.mp hdelivery
      exact ⟨message, rfl⟩
  | sendDM recipient message =>
      simp only [replyTo] at h
      split at h
      · cases h
      · next hother =>
          split at h
          · next hmem =>
              obtain ⟨other, hlookup⟩ := Finmap.mem_iff.mp hmem
              intro delivery hdelivery
              rw [respond, if_neg hother, hlookup] at hdelivery
              exact ⟨message, congrArg Prod.snd (Multiset.mem_singleton.mp hdelivery)⟩
          · cases h

/-! ## Deliveries -/

/-- It is a message from another client. -/
def ServerToClientMsg.isMessage : ServerToClientMsg → Bool
  | .message _ _ => true
  | _ => false

/-- A list of messages sent, as deliveries. -/
def deliveries (sent : List (C × ServerToClientMsg)) : Multiset (C × Content) :=
  (sent : Multiset (C × ServerToClientMsg)).map fun p => (p.1, p.2.content)

@[simp] theorem deliveries_singleton (p : C × ServerToClientMsg) :
    deliveries [p] = {(p.1, p.2.content)} := rfl

section Iteration

variable {registry : HashMap String C} {order : List (String × C)} {name : String}

/-- A list of all users names every user once. -/
theorem content_userList (horder : registry.Enumerates order) :
    (ServerToClientMsg.userList (order.map Prod.fst)).content = .userList registry.keys.val :=
  congrArg Content.userList horder.map_fst

/-- A message to every entry but one's own. -/
theorem deliveries_others (horder : registry.Enumerates order) (msg : ServerToClientMsg) :
    deliveries ((order.filter fun item => item.1 ≠ name).map fun item => (item.2, msg)) =
      (registry.erase name).entries.map fun client => (client.2, msg.content) := by
  rw [← HashMap.Enumerates.erase horder]
  simp [deliveries, Function.comp_def]

end Iteration

end RustCourse.Chat
