import RustCourse.Agreement
import RustCourse.Chat.Room
import RustCourse.Lesson09.Registry

/-!
# The lesson 09 server is a chat room

One thread handles one message after the other and writes all that comes of it before it
goes on.  So nothing is reordered at all: `told_eq_inbox` says that what was written to the
socket of a client since it got its name is exactly the inbox of a member of a `Room`, whose
operations are the messages in the order in which they are handled and, at every cleanup,
the names of the clients that are removed (`opsOf`).

A client that is marked as disconnected stays a member until the cleanup: it is still
written to and still listed.  As in `registry_of_untaken` no client gets a taken name, and
every write succeeds.
-/

namespace RustCourse.Lesson09

open Chat Groups Transition

/-! ## What is written to a socket -/

/-- The acts that take place when one of the sends may fail. -/
def performed : List Act → Option ℕ → List Act
  | [], _ => []
  | .register name :: rest, failAt => .register name :: performed rest failAt
  | .send connection msg :: rest, none => .send connection msg :: performed rest none
  | .send connection msg :: rest, some (n + 1) =>
      .send connection msg :: performed rest (some n)
  | .send _ _ :: _, some 0 => []

/-- The acts of a step, with the descriptor of the client whose message is handled. -/
def actsOf (s : Server) : Label → List (Fd × Act)
  | .handleClientMsg order failAt =>
      match s.phase with
      | .reacting self msg _ =>
          match s.clients.lookup self with
          | some client =>
              (performed (handleClientMsg s.clientWriters order client.name self msg).acts
                failAt).map fun act => (self, act)
          | none => []
      | _ => []
  | _ => []

/-- What was written to `fd` since its client got a name, after one more act. -/
def writes (fd : Fd) (written : List ServerToClientMsg) : Fd × Act → List ServerToClientMsg
  | (_, .send connection msg) => if connection = fd then written ++ [msg] else written
  | (self, .register _) => if self = fd then [] else written

/-- What was written to `fd` since its client got a name. -/
def told (fd : Fd) (trace : List (Server × Label)) : List ServerToClientMsg :=
  trace.foldl (fun written p => (actsOf p.1 p.2).foldl (writes fd) written) []

/-! ## The operations of a run -/

/-- The cleanup takes the name of the client away. -/
def leaving (client : Client) : Option (Op String Content) :=
  match client.connected, client.name with
  | false, some name => some (.leave name)
  | _, _ => none

/-- The operations that a step makes on the room. -/
def opsOf (s : Server) : Label → List (Op String Content)
  | .handleClientMsg _ _ =>
      match s.phase with
      | .reacting fd msg _ =>
          match (s.clients.lookup fd).bind Client.name, msg with
          | some name, msg => [request name msg]
          | none, .join name => [enter name]
          | none, _ => []
      | _ => []
  | .cleanup order true => (order.map Prod.snd).filterMap leaving
  | .cleanup _ false => [.dissolve]
  | .terminate => [.dissolve]
  | .wait none => [.dissolve]
  | .accept .err => [.dissolve]
  | .dismiss false => [.dissolve]
  | _ => []

/-- The room after the operations of a run. -/
def roomOf (trace : List (Server × Label)) : Room :=
  Group.empty.after (trace.flatMap fun p => opsOf p.1 p.2)

/-- The writes that come of a message succeed. -/
def SendsSucceed : Label → Prop
  | .handleClientMsg _ failAt => failAt = none
  | _ => True

variable {decode : List UInt8 → Option ClientToServerMsg} {maxClients : ℕ} {s s' : Server}
  {trace : List (Server × Label)} {g : Room} {fd : Fd} {name : String}

@[simp] theorem told_snoc (fd : Fd) (trace : List (Server × Label)) (s : Server) (l : Label) :
    told fd (trace ++ [(s, l)]) = (actsOf s l).foldl (writes fd) (told fd trace) := by
  simp [told]

@[simp] theorem roomOf_snoc (trace : List (Server × Label)) (s : Server) (l : Label) :
    roomOf (trace ++ [(s, l)]) = (roomOf trace).after (opsOf s l) := by
  simp [roomOf]

theorem performed_none (acts : List Act) : performed acts none = acts := by
  induction acts with
  | nil => rfl
  | cons act rest ih => cases act <;> simp [performed, ih]

/-- Sends add to what was written. -/
theorem writes_of_sends {acts : List Act}
    (h : ∀ act ∈ acts, ∃ connection msg, act = .send connection msg) (self : Fd)
    (written : List ServerToClientMsg) :
    (acts.map fun act => (self, act)).foldl (writes fd) written =
      written ++ ((acts.filterMap Act.sent).filter fun send => send.1 = fd).map Prod.snd := by
  induction acts generalizing written with
  | nil => simp
  | cons act rest ih =>
      obtain ⟨connection, msg, rfl⟩ := h act (by simp)
      have hrest := fun written => ih (fun act hact => h act (by simp [hact])) written
      rw [List.map_cons, List.foldl_cons, hrest]
      by_cases hfd : connection = fd <;> simp [writes, Act.sent, hfd]

/-! ## The members -/

/-- The cleanup takes the same names out of the map and out of the room. -/
theorem members_of_leaving (clients : List Client) {clientWriters : HashMap String Fd}
    (hmembers : g.members = clientWriters.keys) :
    (g.after (clients.filterMap leaving)).members =
      (clients.foldl releaseName clientWriters).keys := by
  induction clients generalizing g clientWriters with
  | nil => exact hmembers
  | cons client rest ih =>
      rw [List.foldl_cons]
      unfold releaseName
      split
      · next name hleft hname =>
          have hop : leaving client = some (.leave name) := by simp [leaving, hleft, hname]
          rw [List.filterMap_cons_some hop, Group.after_cons]
          exact ih (by simp [hmembers])
      · next hstays =>
          have hop : leaving client = none := by
            unfold leaving
            split
            · next name hleft hname => exact absurd hname (hstays name hleft)
            · rfl
          rw [List.filterMap_cons_none hop]
          exact ih hmembers

/-! ## One step -/

/-- The state follows the room that the trace makes. -/
structure Follows (trace : List (Server × Label)) (s : Server) : Prop where
  members : (roomOf trace).members = s.clientWriters.keys
  inboxes : ∀ fd client name, s.clients.lookup fd = some client → client.name = some name →
    (told fd trace).map ServerToClientMsg.content = (roomOf trace).inbox name

/-- A step that writes nothing and changes no name. -/
theorem Follows.quiet {l : Label} (h : Follows trace s) (hacts : actsOf s l = [])
    (hops : opsOf s l = []) (hwriters : s'.clientWriters = s.clientWriters)
    (hclients : ∀ fd client, s'.clients.lookup fd = some client → client.name.isSome = true →
      (s.clients.lookup fd).bind Client.name = client.name) :
    Follows (trace ++ [(s, l)]) s' := by
  constructor
  · simpa [hops, hwriters] using h.members
  · intro fd client name hclient hname
    have hbefore := hclients fd client hclient (by simp [hname])
    rw [hname] at hbefore
    obtain ⟨old, hold, holdname⟩ := Option.bind_eq_some_iff.mp hbefore
    simpa [hacts, hops] using h.inboxes fd old name hold holdname

theorem Follows.dissolved {l : Label} (hops : opsOf s l = [.dissolve]) (ok : Bool) :
    Follows (trace ++ [(s, l)]) (s.stop ok) := by
  constructor
  · simp [hops, Group.apply, Server.stop]
  · intro fd client name hclient
    simp [Server.stop] at hclient

/-- A request of a client that has a name. -/
theorem Follows.requested {order : List (String × Fd)} {self : Fd} {msg : ClientToServerMsg}
    {rest : List Event} {client after : Client} {sender : String} (h : Follows trace s)
    (hregistry : Registry s) (hphase : s.phase = .reacting self msg rest)
    (hself : s.clients.lookup self = some client) (hsender : client.name = some sender)
    (horder : s.clientWriters.Enumerates order) (hafter : after.name = client.name) :
    Follows (trace ++ [(s, .handleClientMsg order none)])
      { s.setClient self after with phase := .handling rest } := by
  have hacts : actsOf s (.handleClientMsg order none) =
      (handleRegisteredClient s.clientWriters order sender self msg).acts.map
        fun act => (self, act) := by
    simp only [actsOf, hphase, hself, performed_none, hsender, handleClientMsg]
  have hops : opsOf s (.handleClientMsg order none) = [request sender msg] := by
    simp [opsOf, hphase, hself, hsender]
  constructor
  · simpa [hops, request, Server.setClient] using h.members
  · intro fd client' name hclient' hname
    -- the names of the clients are as before
    obtain ⟨old, hold, holdname⟩ :
        ∃ old, s.clients.lookup fd = some old ∧ old.name = some name := by
      by_cases hfd : fd = self
      · subst hfd
        simp only [Server.setClient_lookup, Option.some.injEq] at hclient'
        exact ⟨client, hself, by rw [← hafter, hclient', hname]⟩
      · exact ⟨client', by simpa [Server.setClient_lookup_ne _ hfd] using hclient', hname⟩
    have hentry := hregistry.entry fd old name hold holdname
    have honly : ∀ other, s.clientWriters.lookup other = some fd → other = name := by
      intro other hlookup
      obtain ⟨owner, howner, hothername⟩ := hregistry.owner other fd hlookup
      obtain rfl := Option.some.inj (howner.symm.trans hold)
      exact Option.some.inj (hothername.symm.trans holdname)
    have hmem : name ∈ (roomOf trace).members := by
      rw [h.members, Finmap.mem_keys]
      exact Finmap.mem_of_lookup_eq_some hentry
    have hheard := hears_of_sends (congrArg Response.deliveries
      (handleRegisteredClient_response horder msg))
      (hregistry.entry self client sender hself hsender) hentry honly
    rw [told_snoc, roomOf_snoc, hacts, hops, writes_of_sends sends_of_registered,
      Group.after_cons, Group.after_nil, request, Group.tell_inbox _ hmem, h.members, ← hheard,
      List.map_append, h.inboxes fd old name hold holdname, List.map_map]
    rfl

/-- A client without a name gets one that nobody has. -/
theorem Follows.entered {order : List (String × Fd)} {self : Fd} {rest : List Event}
    {client after : Client} {asked : String} (h : Follows trace s) (hregistry : Registry s)
    (hphase : s.phase = .reacting self (.join asked) rest)
    (hself : s.clients.lookup self = some client) (hunnamed : client.name = none)
    (hfree : asked ∉ s.clientWriters) (hafter : after.name = some asked) :
    Follows (trace ++ [(s, .handleClientMsg order none)])
      { s.setClient self after with
        phase := .handling rest
        clientWriters := s.clientWriters.insert asked self } := by
  have hacts : actsOf s (.handleClientMsg order none) =
      [(self, .register asked), (self, .send self .welcome)] := by
    simp [actsOf, hphase, hself, performed_none, hunnamed, handleClientMsg,
      handleUnregisteredClientMsg, hfree]
  have hops : opsOf s (.handleClientMsg order none) = [enter asked] := by
    simp [opsOf, hphase, hself, hunnamed]
  constructor
  · ext k
    simp [hops, enter, h.members, Finmap.mem_keys]
  · intro fd client' name hclient' hname
    rw [told_snoc, roomOf_snoc, hacts, hops]
    -- is it the client that gets the name?
    by_cases hfd : fd = self
    · subst hfd
      simp only [Server.setClient_lookup, Option.some.injEq] at hclient'
      obtain rfl : asked = name := by
        rw [← hclient', hafter] at hname
        exact Option.some.inj hname
      simp [writes, enter, Group.apply, ServerToClientMsg.content]
    · have hbefore : s.clients.lookup fd = some client' := by
        simpa [Server.setClient_lookup_ne _ hfd] using hclient'
      have hother : name ≠ asked := by
        rintro rfl
        exact hfree (Finmap.mem_of_lookup_eq_some (hregistry.entry fd client' name hbefore hname))
      rw [Group.after_cons, Group.after_nil, enter, Group.join_inbox_ne _ hother,
        ← h.inboxes fd client' name hbefore hname]
      simp [writes, Ne.symm hfd]

/-- A client without a name is told off. -/
theorem Follows.unnamed {order : List (String × Fd)} {self : Fd} {msg : ClientToServerMsg}
    {rest : List Event} {client after : Client} (h : Follows trace s)
    (hphase : s.phase = .reacting self msg rest) (hself : s.clients.lookup self = some client)
    (hunnamed : client.name = none) (hmsg : ∀ asked, msg ≠ .join asked)
    (hafter : after.name = none) :
    Follows (trace ++ [(s, .handleClientMsg order none)])
      { s.setClient self after with phase := .handling rest } := by
  have hacts : actsOf s (.handleClientMsg order none) =
      [(self, .send self (.error "Unexpected message received"))] := by
    cases msg with
    | join asked => exact absurd rfl (hmsg asked)
    | _ => simp [actsOf, hphase, hself, performed_none, hunnamed, handleClientMsg,
        handleUnregisteredClientMsg]
  have hops : opsOf s (.handleClientMsg order none) = [] := by
    cases msg with
    | join asked => exact absurd rfl (hmsg asked)
    | _ => simp [opsOf, hphase, hself, hunnamed]
  constructor
  · simpa [hops, Server.setClient] using h.members
  · intro fd client' name hclient' hname
    have hfd : fd ≠ self := by
      rintro rfl
      simp only [Server.setClient_lookup, Option.some.injEq] at hclient'
      rw [← hclient', hafter] at hname
      cases hname
    have hbefore : s.clients.lookup fd = some client' := by
      simpa [Server.setClient_lookup_ne _ hfd] using hclient'
    rw [told_snoc, roomOf_snoc, hacts, hops, Group.after_nil, ← h.inboxes fd client' name hbefore
      hname]
    simp [writes, Ne.symm hfd]

/-- The disconnected clients are removed, with their names. -/
theorem Follows.cleaned {order : List (Fd × Client)} (h : Follows trace s)
    (hregistry : Registry s) (horder : s.clients.Enumerates order) :
    Follows (trace ++ [(s, .cleanup order true)])
      { s with
        phase := .waiting
        clients := s.clients.retain fun _ client => client.connected
        clientWriters := (order.map Prod.snd).foldl releaseName s.clientWriters
        interest := s.interest.filter fun fd => (s.clients.lookup fd).all Client.connected } := by
  constructor
  · rw [roomOf_snoc]
    exact members_of_leaving (order.map Prod.snd) h.members
  · intro fd client name hclient hname
    rw [HashMap.lookup_retain, Option.filter_eq_some_iff] at hclient
    obtain ⟨hbefore, hconnected⟩ := hclient
    have hmem : name ∈ (roomOf trace).members := by
      rw [h.members, Finmap.mem_keys]
      exact Finmap.mem_of_lookup_eq_some (hregistry.entry fd client name hbefore hname)
    have hkeeps : ∀ op ∈ opsOf s (.cleanup order true), Group.Keeps name op := by
      intro op hop
      obtain ⟨left, hleft, hleaves⟩ := List.mem_filterMap.mp hop
      obtain ⟨fd', hleaver⟩ := (mem_values horder).mp hleft
      unfold leaving at hleaves
      split at hleaves
      · next other hgone hother =>
          cases hleaves
          -- two clients do not share a name, and this one is connected
          rintro rfl
          obtain rfl := hregistry.unique hleaver hbefore hother hname
          obtain rfl := Option.some.inj (hleaver.symm.trans hbefore)
          simp [hgone] at hconnected
      · cases hleaves
    have hsilent : Group.heard name (roomOf trace) (opsOf s (.cleanup order true)) = [] := by
      apply Group.heard_of_silent
      rintro op hop hears rfl
      obtain ⟨left, -, hleaves⟩ := List.mem_filterMap.mp hop
      unfold leaving at hleaves
      split at hleaves <;> cases hleaves
    rw [told_snoc, roomOf_snoc, (Group.after_of_keeps hkeeps hmem).2, hsilent, List.append_nil]
    exact h.inboxes fd client name hbefore hname

theorem Follows.step {l : Label} (h : Follows trace s) (hregistry : Registry s)
    (huntaken : Untaken s l) (hsends : SendsSucceed l) (hstep : Stepped decode maxClients s l s') :
    Follows (trace ++ [(s, l)]) s' := by
  cases hstep with
  | arrived | hungUp | waited | turnedAway | aborted | dismissed | skipped =>
      refine h.quiet rfl rfl rfl fun fd client hclient _ => ?_
      have hclient : s.clients.lookup fd = some client := hclient
      rw [hclient, Option.bind_some]
  | terminated | waitFailed | acceptFailed | dismissFailed | shutdownFailed =>
      exact .dissolved rfl _
  -- a new client has no name
  | @accepted new rest hphase hfree =>
      refine h.quiet rfl rfl rfl fun fd client hclient hnamed => ?_
      have hfd : fd ≠ new := by
        rintro rfl
        simp only [Server.setClient_lookup, Option.some.injEq] at hclient
        simp [← hclient, Client.new] at hnamed
      simp only [Server.setClient_lookup_ne _ hfd, Server.setSocket_clients] at hclient
      rw [hclient, Option.bind_some]
  | @received reads self rest client got reader socket hphase hself hrecv =>
      refine h.quiet rfl rfl (by simp [Server.setSocket]) fun fd other hother _ => ?_
      by_cases hfd : fd = self
      · subst hfd
        have hname : other.name = client.name := by
          cases got <;> simp only [tryRecvMsg, Server.setClient_lookup, Option.some.injEq]
            at hother <;> rw [← hother]
        rw [hself, Option.bind_some, hname]
      · rw [tryRecvMsg_lookup_ne _ _ _ hfd, Server.setSocket_clients] at hother
        rw [hother, Option.bind_some]
  | @reacted order failAt self msg rest client client' clientWriters sent hphase hself horder
      hperform =>
      obtain rfl : failAt = none := hsends
      -- the message is from a client with a name, or it should be a `Join`
      cases hname : client.name with
      | some sender =>
          rw [hname, handleClientMsg] at hperform
          obtain ⟨sent', hsent⟩ : ∃ sent', perform self
              (handleRegisteredClient s.clientWriters order sender self msg).acts none client
              s.clientWriters = (client, s.clientWriters, sent') :=
            perform_sends sends_of_registered
          cases hsent.symm.trans hperform
          exact h.requested hregistry hphase hself hname horder rfl
      | none =>
          rw [hname, handleClientMsg] at hperform
          cases msg with
          | join asked =>
              have hfree : asked ∉ s.clientWriters := by
                intro hmem
                have := huntaken.joins hphase rfl hself hname hmem
                cases this
              simp only [handleUnregisteredClientMsg, hfree, if_false, List.nil_append,
                perform, Prod.mk.injEq] at hperform
              obtain ⟨rfl, rfl, rfl⟩ := hperform
              exact h.entered hregistry hphase hself hname hfree rfl
          | _ =>
              simp only [handleUnregisteredClientMsg, perform, Prod.mk.injEq] at hperform
              obtain ⟨rfl, rfl, rfl⟩ := hperform
              exact h.unnamed hphase hself hname (by simp) hname
  | cleaned hphase horder => exact h.cleaned hregistry horder

/-! ## Runs -/

/-- **The server is a chat room.**  In every run in which the writes that come of a message
succeed and no client gets a taken name, the members of the room that the run makes are the
names in the map, and what was written to a client since it got its name is what is in the
inbox of its member. -/
theorem told_eq_inbox (hrun : Run (Fires (step decode maxClients)) Server.init trace s)
    (huntaken : ∀ p ∈ trace, Untaken p.1 p.2) (hsends : ∀ p ∈ trace, SendsSucceed p.2) :
    (roomOf trace).members = s.clientWriters.keys ∧
      ∀ fd client name, s.clients.lookup fd = some client → client.name = some name →
        (told fd trace).map ServerToClientMsg.content = (roomOf trace).inbox name := by
  have hfollows : Follows trace s := by
    refine hrun.invariantTraceUnder (C := fun s l => Untaken s l ∧ SendsSucceed l)
      (I := fun trace s => (∀ p ∈ trace, Untaken p.1 p.2) → Follows trace s)
      (fun p hp => ⟨huntaken p hp, hsends p hp⟩) ?_ ?_ huntaken
    · intro _
      exact ⟨rfl, by simp [Server.init]⟩
    · rintro trace s l s' hrun ih ⟨hlast, hsucceeds⟩ hstep hall
      have hearlier : ∀ p ∈ trace, Untaken p.1 p.2 := fun p hp => hall p (by simp [hp])
      exact (ih hearlier).step (registry hrun hearlier) hlast hsucceeds (stepped_of_step hstep)
  exact ⟨hfollows.members, hfollows.inboxes⟩

/-- Two clients join; the second one sends to all before the first one pings. -/
theorem told_eq_inbox_ping :
    ∃ trace s, Run (Fires (step decodeTalk 2)) Server.init trace s ∧
      (roomOf trace).members = {"a", "b"} ∧
      told 5 trace = [.welcome, .message "b" "hi", .pong] ∧ told 6 trace = [.welcome] ∧
      (roomOf trace).inbox "a" = [.welcome, .message "b" "hi", .pong] ∧
      (roomOf trace).inbox "b" = [.welcome] := by
  let order := [("a", 5), ("b", 6)]
  let clients := [(5, named "a"), (6, named "b")]
  obtain ⟨trace, s, hrun, hp⟩ := exists_run_of_replay (step decodeTalk 2) Server.init
    (bothJoin ++ asks 6 (.broadcast "hi") order clients ++ asks 5 .ping order clients)
    (fun r => decide ((∀ p ∈ r.1, Untaken p.1 p.2) ∧ (∀ p ∈ r.1, Succeeds p.2) ∧
      r.2.clientWriters.keys = {"a", "b"} ∧
      (r.2.clients.lookup 5).bind Client.name = some "a" ∧
      (r.2.clients.lookup 6).bind Client.name = some "b" ∧
      told 5 r.1 = [.welcome, .message "b" "hi", .pong] ∧ told 6 r.1 = [.welcome]))
    (by decide +kernel)
  obtain ⟨huntaken, hsucceeds, hkeys, hfirst, hsecond, htold, htold'⟩ := of_decide_eq_true hp
  have hsends : ∀ p ∈ trace, SendsSucceed p.2 := by
    intro p hmem
    have := hsucceeds p hmem
    cases hl : p.2 <;> simp_all [Succeeds, SendsSucceed]
  obtain ⟨hmembers, hinboxes⟩ := told_eq_inbox hrun huntaken hsends
  obtain ⟨client, hlookup, hname⟩ := Option.bind_eq_some_iff.mp hfirst
  obtain ⟨client', hlookup', hname'⟩ := Option.bind_eq_some_iff.mp hsecond
  refine ⟨trace, s, hrun, hmembers.trans hkeys, htold, htold', ?_, ?_⟩
  · rw [← hinboxes 5 client "a" hlookup hname, htold]
    rfl
  · rw [← hinboxes 6 client' "b" hlookup' hname', htold']
    rfl

end RustCourse.Lesson09
