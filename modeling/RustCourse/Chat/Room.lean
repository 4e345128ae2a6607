import RustCourse.Chat.Protocol
import RustCourse.Lib.Group

/-!
# The chat room

What the chat servers of lessons 08, 09, 10 and 10_parallel are for, without connections,
tasks or locks: a group whose members are the usernames.  Whoever joins is told `Welcome`,
and of a request every member hears what the comments in `messages.rs` say (`hears`), at
once and in one order for all.

A server names its clients by connections, and `respond` says what it delivers to which
of them.  `hears_of_respond` is the bridge: to the connection of a member go the
deliveries that the member hears.

A server may keep what it answers itself apart from what it passes on, or what one member
sends apart from what another does.  So a connection is compared with the inbox of its
member by streams: one for every `source` that the server does not reorder.
-/

namespace RustCourse.Chat

open Groups

deriving instance DecidableEq for Content

/-! ## The room -/

/-- The group of the users, each with what it was told. -/
abbrev Room := Group String Content

/-- What member `k` hears of a request of `name`. -/
def hears (name : String) (msg : ClientToServerMsg) (members : Finset String) (k : String) :
    List Content :=
  match msg with
  | .join _ => if k = name then [.error "Unexpected message received"] else []
  | .ping => if k = name then [.pong] else []
  | .listUsers => if k = name then [.userList members.val] else []
  | .sendDM recipient message =>
      if recipient = name then
        if k = name then [.error "Cannot send a DM to yourself"] else []
      else if recipient ∈ members then
        if k = recipient then [.message name message] else []
      else if k = name then [.error s!"User {recipient} does not exist"] else []
  | .broadcast message => if k = name then [] else [.message name message]

/-- The client joins as `name`. -/
def enter (name : String) : Op String Content :=
  .join name [.welcome]

/-- The member `name` makes a request. -/
def request (name : String) (msg : ClientToServerMsg) : Op String Content :=
  .tell (hears name msg)

@[simp] theorem heard_request {g : Room} (k name : String) (msg : ClientToServerMsg) :
    Group.heard k g [request name msg] = hears name msg g.members k := by
  simp [request, Group.heard]

/-! ## Members and connections -/

section Respond

variable {C : Type*} [DecidableEq C] {registry : HashMap String C} {name k : String} {self c : C}

/-- The deliveries to one connection. -/
def deliveredTo (c : C) (deliveries : Multiset (C × Content)) : Multiset Content :=
  (deliveries.filter fun delivery => delivery.1 = c).map Prod.snd

theorem deliveredTo_single (content : Content) :
    deliveredTo c {(self, content)} = ((if self = c then [content] else [] : List Content) :
      Multiset Content) := by
  unfold deliveredTo
  split
  · next heq => simp [Multiset.filter_singleton, heq]
  · next hne => simp [Multiset.filter_singleton, hne]

/-- Of the entries but one's own, one is that of another member. -/
theorem filter_erase_entries (hk : registry.lookup k = some c)
    (honly : ∀ other, registry.lookup other = some c → other = k) :
    (registry.erase name).entries.filter (fun entry => entry.2 = c) =
      if k = name then 0 else {⟨k, c⟩} := by
  -- at most the entry of `k` is left
  refine (Multiset.Nodup.ext ?_ ?_).mpr fun entry => ?_
  · exact (Finmap.nodup_entries _).filter _
  · split <;> simp
  · obtain ⟨other, connection⟩ := entry
    rw [Multiset.mem_filter, ← Finmap.lookup_eq_some_iff]
    by_cases hkname : k = name
    · rw [if_pos hkname]
      constructor
      · rintro ⟨hlookup, rfl⟩
        obtain ⟨hother, hlookup⟩ := HashMap.lookup_erase_eq_some.mp hlookup
        exact absurd ((honly other hlookup).trans hkname) hother
      · intro hmem
        simp at hmem
    · rw [if_neg hkname, Multiset.mem_singleton]
      constructor
      · rintro ⟨hlookup, rfl⟩
        rw [honly other (HashMap.lookup_erase_eq_some.mp hlookup).2]
      · intro heq
        cases heq
        exact ⟨HashMap.lookup_erase_eq_some.mpr ⟨hkname, hk⟩, rfl⟩

/-- **The bridge**: what a server delivers to the connection of a member is what the member
hears. -/
theorem hears_of_respond (hself : registry.lookup name = some self)
    (hk : registry.lookup k = some c)
    (honly : ∀ other, registry.lookup other = some c → other = k) (msg : ClientToServerMsg) :
    deliveredTo c (respond registry name self msg).deliveries =
      (hears name msg registry.keys k : Multiset Content) := by
  -- a connection is in the table under one name, so names can be compared instead
  have hsame : self = c ↔ k = name := by
    constructor
    · rintro rfl
      exact (honly name hself).symm
    · rintro rfl
      exact Option.some.inj (hself.symm.trans hk)
  cases msg with
  | join other => simp only [respond, hears, deliveredTo_single, hsame]
  | ping => simp only [respond, hears, deliveredTo_single, hsame]
  | listUsers => simp only [respond, hears, deliveredTo_single, hsame]
  | sendDM recipient message =>
      by_cases hown : recipient = name
      · simp only [respond, hears, hown, if_true, deliveredTo_single, hsame]
      · simp only [respond, hears, hown, if_false, Finmap.mem_keys]
        cases hlookup : registry.lookup recipient with
        | none =>
            have hgone : recipient ∉ registry := Finmap.lookup_eq_none.mp hlookup
            simp only [deliveredTo_single, hsame, hgone, if_false]
        | some target =>
            have hmem : recipient ∈ registry := Finmap.mem_of_lookup_eq_some hlookup
            have hreaches : target = c ↔ k = recipient := by
              constructor
              · rintro rfl
                exact (honly recipient hlookup).symm
              · rintro rfl
                exact Option.some.inj (hlookup.symm.trans hk)
            simp only [deliveredTo_single, hreaches, hmem, if_true]
  | broadcast message =>
      simp only [respond, hears, deliveredTo, Multiset.filter_map, Function.comp_def,
        Multiset.map_map, filter_erase_entries hk honly]
      split <;> simp

/-- The same for a server that makes its deliveries one after the other: they reach the
member in the order in which it hears them, since a request is heard once. -/
theorem hears_of_sends {sends : List (C × ServerToClientMsg)} {msg : ClientToServerMsg}
    (hsends : deliveries sends = (respond registry name self msg).deliveries)
    (hself : registry.lookup name = some self) (hk : registry.lookup k = some c)
    (honly : ∀ other, registry.lookup other = some c → other = k) :
    (sends.filter fun send => send.1 = c).map (fun send => send.2.content) =
      hears name msg registry.keys k := by
  have hbridge := hears_of_respond hself hk honly msg
  rw [← hsends] at hbridge
  have hperm : ((sends.filter fun send => send.1 = c).map fun send => send.2.content).Perm
      (hears name msg registry.keys k) := by
    rw [← Multiset.coe_eq_coe, ← hbridge]
    simp [deliveredTo, deliveries, List.filter_map, Function.comp_def]
  have hlength : (hears name msg registry.keys k).length ≤ 1 := by
    unfold hears
    split <;> (repeat' split) <;> simp
  rcases hheard : hears name msg registry.keys k with _ | ⟨content, _ | ⟨other, rest⟩⟩
  · rw [hheard] at hperm
    exact hperm.eq_nil
  · rw [hheard] at hperm
    exact List.perm_singleton.mp hperm
  · simp [hheard] at hlength

end Respond

/-! ## Streams -/

/-- The member in whose name it is sent, or the server. -/
def Content.source : Content → Option String
  | .message sender _ => some sender
  | _ => none

/-- What comes from one source. -/
def fromSource (source : Option String) (contents : List Content) : List Content :=
  contents.filter fun content => content.source = source

@[simp] theorem fromSource_nil (source : Option String) : fromSource source [] = [] := rfl

@[simp] theorem fromSource_append (source : Option String) (first second : List Content) :
    fromSource source (first ++ second) = fromSource source first ++ fromSource source second :=
  List.filter_append ..

/-- It is passed on from another member. -/
def Content.passedOn (content : Content) : Bool :=
  content.source.isSome

/-- A connection that is told the answers of the server in their order and the messages of
all other members in theirs, as they are in an inbox. -/
structure InStreams (told inbox : List Content) : Prop where
  answers : told.filter (fun content => !content.passedOn) =
    inbox.filter fun content => !content.passedOn
  messages : told.filter Content.passedOn = inbox.filter Content.passedOn

namespace InStreams

variable {told inbox : List Content}

theorem refl (contents : List Content) : InStreams contents contents := ⟨rfl, rfl⟩

theorem append (h : InStreams told inbox) {told' inbox' : List Content}
    (h' : InStreams told' inbox') : InStreams (told ++ told') (inbox ++ inbox') := by
  constructor
  · simp only [List.filter_append, h.answers, h'.answers]
  · simp only [List.filter_append, h.messages, h'.messages]

theorem trans {mid : List Content} (h : InStreams told mid) (h' : InStreams mid inbox) :
    InStreams told inbox :=
  ⟨h.answers.trans h'.answers, h.messages.trans h'.messages⟩

/-- An answer may overtake messages. -/
theorem overtake {answer : Content} {messages : List Content} (hanswer : answer.passedOn = false)
    (hmessages : ∀ content ∈ messages, content.passedOn = true) :
    InStreams (answer :: messages) (messages ++ [answer]) := by
  have hnone : messages.filter (fun content => !content.passedOn) = [] := by
    rw [List.filter_eq_nil_iff]
    intro content hcontent
    simp [hmessages content hcontent]
  constructor
  · simp [hanswer, hnone]
  · simp [hanswer]

end InStreams

end RustCourse.Chat
