import RustCourse.Chat.Json
import RustCourse.Lesson09.Server

/-!
# What one step of the lesson 09 server can do

`Stepped` lists the steps, one constructor for each way one can go, with everything it
checked; invariants are proved by cases on it.  `epoll` itself only enters through
`LevelTriggered`, which says what a truthful kernel reports.

## Strategy

`step` is one function over the label and the phase.  `stepped_of_step` takes it apart once,
and what a reaction may send and to whom is taken apart in `registered_of_perform`.  The
updates of the maps and of a socket come with their look-ups as `@[simp]` lemmas, so a case of
an invariant is closed by rewriting, or comes down to the one entry that has changed.
-/

namespace RustCourse.Lesson09

open Chat Transition

variable {decode : List UInt8 → Option ClientToServerMsg} {maxClients : ℕ} {s s' : Server}

namespace Server

/-- A socket changes. -/
def setSocket (s : Server) (fd : Fd) (socket : Socket) : Server :=
  { s with socket := Function.update s.socket fd socket }

@[simp] theorem setSocket_clients (fd : Fd) (socket : Socket) :
    (s.setSocket fd socket).clients = s.clients := rfl

@[simp] theorem setSocket_self (fd : Fd) (socket : Socket) :
    (s.setSocket fd socket).socket fd = socket := Function.update_self ..

theorem setSocket_ne {fd other : Fd} (socket : Socket) (h : other ≠ fd) :
    (s.setSocket fd socket).socket other = s.socket other := Function.update_of_ne h ..

@[simp] theorem setClient_lookup (fd : Fd) (client : Client) :
    (s.setClient fd client).clients.lookup fd = some client := Finmap.lookup_insert _

theorem setClient_lookup_ne {fd other : Fd} (client : Client) (h : other ≠ fd) :
    (s.setClient fd client).clients.lookup other = s.clients.lookup other :=
  Finmap.lookup_insert_of_ne _ h

end Server

@[simp] theorem tryRecvMsg_socket (fd : Fd) (client : Client) (rest : List Event)
    (got : Received ClientToServerMsg) : (tryRecvMsg s fd client rest got).socket = s.socket := by
  cases got <;> rfl

@[simp] theorem tryRecvMsg_clientWriters (fd : Fd) (client : Client) (rest : List Event)
    (got : Received ClientToServerMsg) :
    (tryRecvMsg s fd client rest got).clientWriters = s.clientWriters := by
  cases got <;> rfl

theorem tryRecvMsg_lookup_ne {fd other : Fd} (client : Client) (rest : List Event)
    (got : Received ClientToServerMsg) (h : other ≠ fd) :
    (tryRecvMsg s fd client rest got).clients.lookup other = s.clients.lookup other := by
  cases got <;> exact Finmap.lookup_insert_of_ne _ h

/-! ## The steps -/

/-- **What one step can do.** -/
inductive Stepped (decode : List UInt8 → Option ClientToServerMsg) (maxClients : ℕ) (s : Server) :
    Label → Server → Prop
  | arrived {fd bytes} : (s.socket fd).hungUp = false →
      Stepped decode maxClients s (.arrive fd bytes)
        (s.setSocket fd { s.socket fd with incoming := (s.socket fd).incoming ++ bytes })
  | hungUp {fd} :
      Stepped decode maxClients s (.hangUp fd) (s.setSocket fd { s.socket fd with hungUp := true })
  | terminated : s.phase = .waiting → Stepped decode maxClients s .terminate (s.stop true)
  | waited {batch} : s.phase = .waiting → batch.length ≤ 1024 →
      Stepped decode maxClients s (.wait (some batch)) { s with phase := .handling batch }
  | waitFailed : s.phase = .waiting → Stepped decode maxClients s (.wait none) (s.stop false)
  | accepted {fd rest} : s.phase = .handling (.listener :: rest) → ¬ s.Open fd →
      s.clients.keys.card < maxClients →
      Stepped decode maxClients s (.accept (.client fd))
        { (s.setSocket fd ⟨[], false⟩).setClient fd .new with
          phase := .handling rest
          interest := insert fd s.interest }
  | turnedAway {fd rest} : s.phase = .handling (.listener :: rest) → ¬ s.Open fd →
      maxClients ≤ s.clients.keys.card →
      Stepped decode maxClients s (.accept (.client fd))
        { s.setSocket fd ⟨[], false⟩ with
          phase := .handling rest
          interest := insert fd s.interest
          rejectedClients := s.rejectedClients.insert fd .new }
  | aborted {rest} : s.phase = .handling (.listener :: rest) →
      Stepped decode maxClients s (.accept .wouldBlock) { s with phase := .handling rest }
  | acceptFailed {rest} : s.phase = .handling (.listener :: rest) →
      Stepped decode maxClients s (.accept .err) (s.stop false)
  | received {reads fd rest client got reader socket} :
      s.phase = .handling (.socket fd :: rest) → s.clients.lookup fd = some client →
      client.reader.recv decode Socket.read reads (s.socket fd) = some (got, reader, socket) →
      Stepped decode maxClients s (.tryRecvMsg reads)
        (tryRecvMsg (s.setSocket fd socket) fd { client with reader } rest got)
  | reacted {order failAt fd msg rest client client' clientWriters sent} :
      s.phase = .reacting fd msg rest → s.clients.lookup fd = some client →
      s.clientWriters.Enumerates order →
      perform fd (handleClientMsg s.clientWriters order client.name fd msg).acts failAt client
        s.clientWriters = (client', clientWriters, sent) →
      Stepped decode maxClients s (.handleClientMsg order failAt)
        { s.setClient fd { client' with connected := client'.connected &&
            (sent && (handleClientMsg s.clientWriters order client.name fd msg).ok) } with
          phase := .handling rest
          clientWriters }
  | dismissed {fd rest client} : s.phase = .handling (.socket fd :: rest) →
      s.clients.lookup fd = none → s.rejectedClients.lookup fd = some client →
      Stepped decode maxClients s (.dismiss true)
        { s with
          phase := .handling rest
          rejectedClients := s.rejectedClients.insert fd { client with connected := false } }
  | dismissFailed {fd rest client} : s.phase = .handling (.socket fd :: rest) →
      s.clients.lookup fd = none → s.rejectedClients.lookup fd = some client →
      Stepped decode maxClients s (.dismiss false) (s.stop false)
  | skipped {fd rest} : s.phase = .handling (.socket fd :: rest) →
      s.clients.lookup fd = none → s.rejectedClients.lookup fd = none →
      Stepped decode maxClients s .skip { s with phase := .handling rest }
  | cleaned {order} : s.phase = .handling [] → s.clients.Enumerates order →
      Stepped decode maxClients s (.cleanup order true)
        { s with
          phase := .waiting
          clients := s.clients.retain fun _ client => client.connected
          clientWriters := (order.map Prod.snd).foldl releaseName s.clientWriters
          interest := s.interest.filter fun fd => (s.clients.lookup fd).all Client.connected }
  | shutdownFailed {order} : s.phase = .handling [] → s.clients.Enumerates order →
      (∃ item ∈ order, item.2.connected = false) →
      Stepped decode maxClients s (.cleanup order false) (s.stop false)

theorem stepped_of_step {l : Label} (h : step decode maxClients s l = some s') :
    Stepped decode maxClients s l s' := by
  -- the branches of `step`, one by one
  cases l with
  | arrive fd bytes =>
      simp only [step] at h
      split at h <;> cases h
      next hopen => exact .arrived (by simpa using hopen)
  | hangUp fd =>
      cases h
      exact .hungUp
  | terminate =>
      simp only [step] at h
      split at h <;> cases h
      next hphase => exact .terminated hphase
  | wait got =>
      simp only [step] at h
      split at h
      · next hphase =>
          cases got with
          | none =>
              cases h
              exact .waitFailed hphase
          | some batch =>
              simp only at h
              split at h <;> cases h
              next hlength => exact .waited hphase hlength
      · cases h
  | accept got =>
      simp only [step] at h
      split at h
      · next rest hphase =>
          cases got with
          | client fd =>
              simp only [acceptAndSetupClient] at h
              split at h
              · cases h
              · next hfree =>
                  split at h <;> cases h
                  · next hfull => exact .turnedAway hphase hfree hfull
                  · next hroom => exact .accepted hphase hfree (by simpa using hroom)
          | wouldBlock =>
              cases h
              exact .aborted hphase
          | err =>
              cases h
              exact .acceptFailed hphase
      · cases h
  | tryRecvMsg reads =>
      simp only [step] at h
      split at h
      · next fd rest hphase =>
          split at h
          · next client hclient =>
              obtain ⟨⟨got, reader, socket⟩, hrecv, rfl⟩ := Option.map_eq_some_iff.mp h
              exact .received hphase hclient hrecv
          · cases h
      · cases h
  | handleClientMsg order failAt =>
      simp only [step] at h
      split at h
      · next fd msg rest hphase =>
          split at h
          · next client hclient =>
              split at h <;> cases h
              next horder => exact .reacted hphase hclient horder rfl
          · cases h
      · cases h
  | dismiss ok =>
      simp only [step] at h
      split at h
      · next fd rest hphase =>
          split at h
          · next client hserved hrejected =>
              cases ok with
              | true =>
                  cases h
                  exact .dismissed hphase hserved hrejected
              | false =>
                  cases h
                  exact .dismissFailed hphase hserved hrejected
          · cases h
      · cases h
  | skip =>
      simp only [step] at h
      split at h
      · next fd rest hphase =>
          split at h
          · cases h
          · next hunknown =>
              cases h
              rw [not_or] at hunknown
              exact .skipped hphase (Finmap.lookup_eq_none.mpr hunknown.1)
                (Finmap.lookup_eq_none.mpr hunknown.2)
      · cases h
  | cleanup order ok =>
      simp only [step] at h
      split at h
      · next hready =>
          cases ok with
          | true =>
              cases h
              exact .cleaned hready.1 hready.2
          | false =>
              simp only [Bool.false_eq_true, if_false] at h
              split at h <;> cases h
              next hleft => exact .shutdownFailed hready.1 hready.2 (by simpa using hleft)
      · cases h

/-! ## Reactions -/

section Reactions

variable {fd : Fd} {failAt : Option ℕ} {client : Client} {clientWriters : HashMap String Fd}

/-- Sends change neither the client nor the writers. -/
theorem perform_sends {acts : List Act}
    (h : ∀ act ∈ acts, ∃ connection msg, act = .send connection msg) :
    ∃ sent, perform fd acts failAt client clientWriters = (client, clientWriters, sent) := by
  induction acts generalizing failAt with
  | nil => exact ⟨true, rfl⟩
  | cons act rest ih =>
      obtain ⟨connection, msg, rfl⟩ := h act (by simp)
      have hrest : ∀ act ∈ rest, ∃ connection msg, act = .send connection msg :=
        fun act hact => h act (by simp [hact])
      match failAt with
      | none => exact ih hrest
      | some 0 => exact ⟨false, rfl⟩
      | some (n + 1) => exact ih hrest

theorem sends_of_registered {order : List (String × Fd)} {name : String} {msg : ClientToServerMsg} :
    ∀ act ∈ (handleRegisteredClient clientWriters order name fd msg).acts,
      ∃ connection msg, act = .send connection msg := by
  intro act hact
  cases msg with
  | sendDM recipient message =>
      simp only [handleRegisteredClient] at hact
      (repeat' split at hact) <;> exact ⟨_, _, List.mem_singleton.mp hact⟩
  | broadcast message =>
      obtain ⟨item, -, rfl⟩ := List.mem_map.mp hact
      exact ⟨_, _, rfl⟩
  | _ => exact ⟨_, _, List.mem_singleton.mp hact⟩

/-- **What a reaction does to the registry**: nothing, or a client without a name gets the
name it asks for; if the name was taken, the error reply was sent before. -/
inductive Registered (fd : Fd) (failAt : Option ℕ) (client : Client)
    (clientWriters : HashMap String Fd) (msg : ClientToServerMsg) :
    Client → HashMap String Fd → Prop
  | unchanged : Registered fd failAt client clientWriters msg client clientWriters
  | joined {name} : client.name = none → msg = .join name →
      (name ∈ clientWriters → failAt ≠ some 0) →
      Registered fd failAt client clientWriters msg { client with name := some name }
        (clientWriters.insert name fd)

theorem registered_of_perform {order : List (String × Fd)} {msg : ClientToServerMsg}
    {client' : Client} {clientWriters' : HashMap String Fd} {sent : Bool}
    (h : perform fd (handleClientMsg clientWriters order client.name fd msg).acts failAt client
      clientWriters = (client', clientWriters', sent)) :
    Registered fd failAt client clientWriters msg client' clientWriters' := by
  -- acts that only send leave the client and the writers as they are
  have hunchanged : ∀ {acts}, (∀ act ∈ acts, ∃ connection msg, act = Act.send connection msg) →
      perform fd acts failAt client clientWriters = (client', clientWriters', sent) →
      Registered fd failAt client clientWriters msg client' clientWriters' := by
    intro acts hacts hperform
    obtain ⟨sent', hsends⟩ :
        ∃ sent', perform fd acts failAt client clientWriters = (client, clientWriters, sent') :=
      perform_sends hacts
    cases hsends.symm.trans hperform
    exact .unchanged
  unfold handleClientMsg at h
  cases hname : client.name with
  | some name =>
      rw [hname] at h
      exact hunchanged sends_of_registered h
  | none =>
      rw [hname] at h
      cases msg with
      | join name =>
          by_cases htaken : name ∈ clientWriters
          · simp only [handleUnregisteredClientMsg, htaken, if_true, List.singleton_append] at h
            -- the error is sent first, and if that succeeds the name is given away again
            match failAt with
            | some 0 =>
                cases h
                exact .unchanged
            | none | some 1 | some (n + 2) =>
                cases h
                exact .joined hname rfl (by simp)
          · simp only [handleUnregisteredClientMsg, htaken, if_false, List.nil_append] at h
            match failAt with
            | none | some 0 | some (n + 1) =>
                cases h
                exact .joined hname rfl (absurd · htaken)
      | _ => exact hunchanged (by simp [handleUnregisteredClientMsg]) h

end Reactions

/-! ## `epoll` -/

/-- A `read` of the socket would not block. -/
def Socket.Ready (socket : Socket) : Prop :=
  socket.incoming ≠ [] ∨ socket.hungUp = true

instance (socket : Socket) : Decidable socket.Ready := by
  unfold Socket.Ready
  infer_instance

/-- The socket is registered and ready. -/
def Event.Due (s : Server) : Event → Prop
  | .listener => True
  | .socket fd => fd ∈ s.interest ∧ (s.socket fd).Ready

instance (s : Server) (event : Event) : Decidable (event.Due s) := by
  unfold Event.Due
  split <;> infer_instance

/-- **`epoll` is level-triggered**: `epoll::wait` reports sockets that are due only, each
once, and all of them if there is room. -/
def LevelTriggered (s : Server) : Label → Prop
  | .wait (some batch) =>
      batch.Nodup ∧ (∀ event ∈ batch, event.Due s) ∧
        (batch.length < 1024 → ∀ fd ∈ s.interest, (s.socket fd).Ready → .socket fd ∈ batch)
  | _ => True

instance (s : Server) (l : Label) : Decidable (LevelTriggered s l) := by
  unfold LevelTriggered
  split <;> infer_instance

/-- No operation on a socket, on the listener or on `epoll` fails in this step. -/
def Succeeds : Label → Prop
  | .wait got => got.isSome
  | .accept got => got ≠ .err
  | .tryRecvMsg reads => .fails ∉ reads
  | .handleClientMsg _ failAt => failAt = none
  | .dismiss ok => ok
  | .cleanup _ ok => ok
  | _ => True

instance (l : Label) : Decidable (Succeeds l) := by
  unfold Succeeds
  split <;> infer_instance

/-! ## Where runs with clients start -/

/-- The line `{"Join":{"name":"a"}}`. -/
def joinLine : List UInt8 :=
  [123, 34, 74, 111, 105, 110, 34, 58, 123, 34, 110, 97, 109, 101, 34, 58, 34, 97, 34, 125, 125]

/-- The line `"Ping"`. -/
def pingLine : List UInt8 := [34, 80, 105, 110, 103, 34]

/-- `serde_json::from_slice` on these two lines. -/
def decodeLine (line : List UInt8) : Option ClientToServerMsg :=
  if line = joinLine then some (.join "a")
  else if line = pingLine then some .ping
  else none

/-- A client that joined as "a" and said nothing else. -/
def joined : Client := ⟨some "a", .new, true⟩

/-- `fd` connects. -/
def connects (fd : Fd) (clients : List (Fd × Client)) : List Label :=
  [.wait (some [.listener]), .accept (.client fd), .cleanup (clients ++ [(fd, .new)]) true]

/-- `fd` sends a join message, which is read at once. -/
def joins (fd : Fd) (order : List (String × Fd)) (clients : List (Fd × Client)) : List Label :=
  [.arrive fd (joinLine ++ [newline]), .wait (some [.socket fd]), .tryRecvMsg [.take 22],
    .handleClientMsg order none, .cleanup (clients ++ [(fd, joined)]) true]

/-! ## Where runs with two clients start -/

/-- `serde_json::from_slice` on what two clients send. -/
def decodeTalk : List UInt8 → Option ClientToServerMsg :=
  readBack ClientToServerMsg.toVec [.join "a", .join "b", .ping, .broadcast "hi"]

/-- A client that has a name and nothing in its buffer. -/
def named (name : String) : Client := ⟨some name, .new, true⟩

/-- `fd` sends `msg`, which is read at once, and every send succeeds. -/
def asks (fd : Fd) (msg : ClientToServerMsg) (order : List (String × Fd))
    (clients : List (Fd × Client)) : List Label :=
  [.arrive fd (msg.toVec ++ [newline]), .wait (some [.socket fd]),
    .tryRecvMsg [.take (msg.toVec.length + 1)], .handleClientMsg order none, .cleanup clients true]

/-- Descriptors 5 and 6 connect and join as "a" and "b". -/
def bothJoin : List Label :=
  connects 5 [] ++ asks 5 (.join "a") [] [(5, named "a")] ++ connects 6 [(5, named "a")] ++
    asks 6 (.join "b") [("a", 5)] [(5, named "a"), (6, named "b")]

end RustCourse.Lesson09
