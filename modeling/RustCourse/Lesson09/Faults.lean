import RustCourse.Lesson09.Steps

/-!
# What a broken socket can do to the lesson 09 server

All clients share one thread, so an operation on the socket of one client that fails must
neither end the thread nor count against another client (`Isolated`).  The code lets three
such failures escape: the "Server full" to a rejected client and the `shutdown` of a
disconnected one end the thread, and a message that cannot be sent to its recipient
disconnects its sender.  `isolated_iff` says that these are all: the steps of a run are
isolated if and only if none of them is one of the three (`Contained`).
-/

namespace RustCourse.Lesson09

open Chat Transition

variable {decode : List UInt8 → Option ClientToServerMsg} {maxClients : ℕ} {s s' : Server}
  {l : Label}

/-! ## Operations that fail -/

/-- The connection that the `k`-th send of a handler writes to. -/
def sendTarget : List Act → ℕ → Option Fd
  | [], _ => none
  | .register _ :: rest, k => sendTarget rest k
  | .send connection _ :: _, 0 => some connection
  | .send _ _ :: rest, k + 1 => sendTarget rest k

/-- A send to this connection fails. -/
def FailsAt (acts : List Act) (failAt : Option ℕ) (connection : Fd) : Prop :=
  ∃ k, failAt = some k ∧ sendTarget acts k = some connection

/-- The reasons of its own for which a client is marked as disconnected. -/
inductive OwnCause (decode : List UInt8 → Option ClientToServerMsg) (s : Server) :
    Label → Fd → Prop
  /-- its stream has ended or failed, or its message cannot be read -/
  | unreadable {reads fd rest client got reader socket} :
      s.phase = .handling (.socket fd :: rest) → s.clients.lookup fd = some client →
      client.reader.recv decode Socket.read reads (s.socket fd) = some (got, reader, socket) →
      (∀ msg, got ≠ .msg msg) → got ≠ .wouldBlock → OwnCause decode s (.tryRecvMsg reads) fd
  /-- its message is one that the protocol forbids -/
  | forbidden {order failAt fd msg rest client} : s.phase = .reacting fd msg rest →
      s.clients.lookup fd = some client →
      (handleClientMsg s.clientWriters order client.name fd msg).ok = false →
      OwnCause decode s (.handleClientMsg order failAt) fd
  /-- a send to its own socket fails -/
  | broken {order failAt fd msg rest client} : s.phase = .reacting fd msg rest →
      s.clients.lookup fd = some client →
      FailsAt (handleClientMsg s.clientWriters order client.name fd msg).acts failAt fd →
      OwnCause decode s (.handleClientMsg order failAt) fd

/-- **A step keeps faults apart**: the thread fails with `epoll` and the listener only, and a
client is marked as disconnected for a reason of its own. -/
structure Isolated (decode : List UInt8 → Option ClientToServerMsg) (s : Server) (l : Label)
    (s' : Server) : Prop where
  serves : s'.phase = .ended false → s.phase = .ended false ∨ l = .wait none ∨ l = .accept .err
  blames : ∀ fd client client', s.clients.lookup fd = some client →
    s'.clients.lookup fd = some client' → client.connected = true → client'.connected = false →
    OwnCause decode s l fd

/-- A rejected client is told so, a disconnected one is shut down, and no send of a handler
fails at another connection than that of its own connected client. -/
def Contained (s : Server) : Label → Prop
  | .dismiss ok => ok = true
  | .cleanup _ ok => ok = true
  | .handleClientMsg order failAt => ∀ fd msg rest client, s.phase = .reacting fd msg rest →
      s.clients.lookup fd = some client → client.connected = true →
      ∀ connection,
        FailsAt (handleClientMsg s.clientWriters order client.name fd msg).acts failAt connection →
        connection = fd
  | _ => True

/-- Where nothing fails, nothing escapes. -/
theorem contained_of_succeeds (h : Succeeds l) : Contained s l := by
  cases l with
  | dismiss | cleanup => exact h
  | handleClientMsg order failAt =>
      rintro fd msg rest client - - - connection ⟨k, hk, -⟩
      cases h.symm.trans hk
  | _ => trivial

/-! ## Sends that fail -/

/-- A handler succeeds in its sends unless one of them fails. -/
theorem sent_of_perform {fd : Fd} {acts : List Act} {failAt : Option ℕ} {client client' : Client}
    {clientWriters clientWriters' : HashMap String Fd} {sent : Bool}
    (h : perform fd acts failAt client clientWriters = (client', clientWriters', sent)) :
    client'.connected = client.connected ∧
      (sent = false ↔ ∃ connection, FailsAt acts failAt connection) := by
  induction acts generalizing failAt client clientWriters with
  | nil =>
      cases h
      simp [FailsAt, sendTarget]
  | cons act rest ih =>
      cases act with
      | register name =>
          have h' : perform fd rest failAt { client with name := some name }
              (clientWriters.insert name fd) = (client', clientWriters', sent) := h
          obtain ⟨hconnected, hsent⟩ := ih h'
          exact ⟨hconnected, by simpa [FailsAt, sendTarget] using hsent⟩
      | send connection msg =>
          match failAt with
          | none =>
              obtain ⟨hconnected, hsent⟩ := ih h
              exact ⟨hconnected, by simpa [FailsAt] using hsent⟩
          | some 0 =>
              cases h
              exact ⟨rfl, by simp [FailsAt, sendTarget]⟩
          | some (n + 1) =>
              obtain ⟨hconnected, hsent⟩ := ih h
              exact ⟨hconnected, by simpa [FailsAt, sendTarget] using hsent⟩

/-- A reply that the protocol forbids goes to the client itself. -/
theorem target_of_forbidden {clientWriters : HashMap String Fd} {order : List (String × Fd)}
    {name : Option String} {fd connection : Fd} {msg : ClientToServerMsg} {failAt : Option ℕ}
    (h : (handleClientMsg clientWriters order name fd msg).ok = false)
    (hfails : FailsAt (handleClientMsg clientWriters order name fd msg).acts failAt connection) :
    connection = fd := by
  obtain ⟨k, -, htarget⟩ := hfails
  cases name with
  | none =>
      cases msg with
      | join => simp [handleClientMsg, handleUnregisteredClientMsg] at h
      | _ => cases k <;> simp_all [handleClientMsg, handleUnregisteredClientMsg, sendTarget]
  | some name =>
      cases msg with
      | join => cases k <;> simp_all [handleClientMsg, handleRegisteredClient, sendTarget]
      | sendDM recipient message =>
          simp only [handleClientMsg, handleRegisteredClient] at h
          split at h
          · cases h
          · split at h <;> cases h
      | _ => cases h

/-! ## One step -/

/-- A step that changes no client but one, and ends nothing. -/
theorem Isolated.of_client (fd : Fd) (hrunning : s'.phase ≠ .ended false)
    (hothers : ∀ other, other ≠ fd → s'.clients.lookup other = s.clients.lookup other)
    (hfd : ∀ client client', s.clients.lookup fd = some client →
      s'.clients.lookup fd = some client' → client.connected = true →
      client'.connected = false → OwnCause decode s l fd) : Isolated decode s l s' where
  serves h := absurd h hrunning
  blames other client client' hclient hclient' hconnected hdisconnected := by
    by_cases hother : other = fd
    · subst hother
      exact hfd client client' hclient hclient' hconnected hdisconnected
    · rw [hothers other hother, hclient, Option.some.injEq] at hclient'
      rw [← hclient', hconnected] at hdisconnected
      cases hdisconnected

/-- A step that changes no client, and ends nothing. -/
theorem Isolated.of_quiet (hphase : s'.phase = .ended false → s.phase = .ended false)
    (hclients : s'.clients = s.clients) : Isolated decode s l s' where
  serves h := .inl (hphase h)
  blames fd client client' hclient hclient' hconnected hdisconnected := by
    rw [hclients, hclient, Option.some.injEq] at hclient'
    rw [← hclient', hconnected] at hdisconnected
    cases hdisconnected

/-- A step after which there are no clients. -/
theorem Isolated.of_stop {ok : Bool}
    (hok : ok = false → l = .wait none ∨ l = .accept .err) : Isolated decode s l (s.stop ok) where
  serves h := .inr (hok (by simpa [Server.stop] using h))
  blames fd client client' _ hclient' := by simp [Server.stop] at hclient'

/-- A handler disconnects its client for the client's own reasons, or because a send to
another connection failed. -/
theorem ownCause_of_reacted {order : List (String × Fd)} {failAt : Option ℕ} {fd : Fd}
    {msg : ClientToServerMsg} {rest : List Event} {client client' : Client}
    {clientWriters : HashMap String Fd} {sent : Bool} (hphase : s.phase = .reacting fd msg rest)
    (hclient : s.clients.lookup fd = some client)
    (hperform : perform fd (handleClientMsg s.clientWriters order client.name fd msg).acts failAt
      client s.clientWriters = (client', clientWriters, sent))
    (hconnected : client.connected = true)
    (hends : (client'.connected &&
      (sent && (handleClientMsg s.clientWriters order client.name fd msg).ok)) = false) :
    OwnCause decode s (.handleClientMsg order failAt) fd ∨
      ∃ connection, connection ≠ fd ∧
        FailsAt (handleClientMsg s.clientWriters order client.name fd msg).acts failAt
          connection := by
  obtain ⟨hkept, hsent⟩ := sent_of_perform hperform
  rw [hkept, hconnected, Bool.true_and, Bool.and_eq_false_iff] at hends
  rcases hends with hunsent | hforbidden
  · obtain ⟨connection, hfails⟩ := hsent.mp hunsent
    by_cases hown : connection = fd
    · subst hown
      exact .inl (.broken hphase hclient hfails)
    · exact .inr ⟨connection, hown, hfails⟩
  · exact .inl (.forbidden hphase hclient hforbidden)

/-- A client is not disconnected for a send to another connection. -/
theorem not_ownCause_of_other {order : List (String × Fd)} {failAt : Option ℕ}
    {fd connection : Fd} {msg : ClientToServerMsg} {rest : List Event} {client : Client}
    (hphase : s.phase = .reacting fd msg rest) (hclient : s.clients.lookup fd = some client)
    (hfails : FailsAt (handleClientMsg s.clientWriters order client.name fd msg).acts failAt
      connection) (hother : connection ≠ fd) :
    ¬ OwnCause decode s (.handleClientMsg order failAt) fd := by
  intro hcause
  cases hcause with
  | forbidden hphase' hclient' hforbidden =>
      rw [hphase] at hphase'
      cases hphase'
      rw [hclient] at hclient'
      cases hclient'
      exact hother (target_of_forbidden hforbidden hfails)
  | broken hphase' hclient' hown =>
      rw [hphase] at hphase'
      cases hphase'
      rw [hclient] at hclient'
      cases hclient'
      obtain ⟨k, hk, htarget⟩ := hfails
      obtain ⟨k', hk', htarget'⟩ := hown
      rw [hk, Option.some.injEq] at hk'
      subst hk'
      rw [htarget, Option.some.injEq] at htarget'
      exact hother htarget'

/-- **A step is isolated** if and only if it is contained. -/
theorem isolated_iff_contained (hstep : step decode maxClients s l = some s') :
    Isolated decode s l s' ↔ Contained s l := by
  cases stepped_of_step hstep with
  -- no client changes in these steps
  | arrived | hungUp | waited hphase | aborted hphase | skipped hphase =>
      refine iff_of_true (.of_quiet ?_ rfl) trivial
      intro h
      simp_all [Server.setSocket]
  | terminated => exact iff_of_true (.of_stop (by simp)) trivial
  | waitFailed => exact iff_of_true (.of_stop fun _ => .inl rfl) trivial
  | acceptFailed => exact iff_of_true (.of_stop fun _ => .inr rfl) trivial
  | @accepted fd rest hphase hfree hroom =>
      refine iff_of_true (.of_client fd (by simp) ?_ ?_) trivial
      · intro other hother
        exact Server.setClient_lookup_ne .new hother
      · intro client client' _ hclient' _ hdisconnected
        change ((s.setSocket fd ⟨[], false⟩).setClient fd .new).clients.lookup fd =
          some client' at hclient'
        rw [Server.setClient_lookup, Option.some.injEq] at hclient'
        subst hclient'
        cases hdisconnected
  | turnedAway => exact iff_of_true (.of_quiet (by simp) rfl) trivial
  -- only the client that is read from can be marked, and that is its own cause
  | @received reads fd rest client got reader socket hphase hclient hrecv =>
      refine iff_of_true (.of_client fd ?_ ?_ ?_) trivial
      · cases got <;> simp [tryRecvMsg]
      · intro other hother
        exact tryRecvMsg_lookup_ne _ rest got hother
      · intro client₀ client' hclient₀ hclient' hconnected hdisconnected
        rw [hclient, Option.some.injEq] at hclient₀
        subst hclient₀
        have hlast : (∀ msg, got ≠ .msg msg) ∧ got ≠ .wouldBlock := by
          cases got with
          | msg | wouldBlock =>
              change ((s.setSocket fd socket).setClient fd { client with reader }).clients.lookup
                fd = some client' at hclient'
              rw [Server.setClient_lookup, Option.some.injEq] at hclient'
              subst hclient'
              rw [hconnected] at hdisconnected
              cases hdisconnected
          | _ => simp
        exact .unreadable hphase hclient hrecv hlast.1 hlast.2
  | @reacted order failAt fd msg rest client client' clientWriters sent hphase hclient horder
      hperform =>
      have hlookup : ∀ {connected : Bool},
          ({ s.setClient fd { client' with connected } with
            phase := .handling rest, clientWriters } : Server).clients.lookup fd =
            some { client' with connected } := Finmap.lookup_insert _
      -- a client that is marked has failed to be written to, or was to be disconnected
      constructor
      · intro hisolated fd' msg' rest' client₀ hphase' hclient₀ hconnected connection hfails
        rw [hphase] at hphase'
        cases hphase'
        rw [hclient] at hclient₀
        cases hclient₀
        by_contra hother
        obtain ⟨-, hsent⟩ := sent_of_perform hperform
        have hunsent : sent = false := hsent.mpr ⟨connection, hfails⟩
        refine not_ownCause_of_other hphase hclient hfails hother
          (hisolated.blames fd client _ hclient hlookup hconnected ?_)
        simp [hunsent]
      · intro hcontained
        refine .of_client fd (by simp) ?_ ?_
        · intro other hother
          exact Server.setClient_lookup_ne _ hother
        · intro client₀ client₁ hclient₀ hclient₁ hconnected hdisconnected
          rw [hclient, Option.some.injEq] at hclient₀
          subst hclient₀
          rw [hlookup, Option.some.injEq] at hclient₁
          subst hclient₁
          rcases ownCause_of_reacted hphase hclient hperform hconnected hdisconnected with
            hown | ⟨connection, hother, hfails⟩
          · exact hown
          · exact absurd (hcontained fd msg rest client hphase hclient hconnected connection
              hfails) hother
  | dismissed => exact iff_of_true (.of_quiet (by simp) rfl) rfl
  | dismissFailed hphase =>
      refine iff_of_false (fun h => ?_) (by simp [Contained])
      simpa [hphase] using h.serves rfl
  -- the cleanup keeps the clients that are connected
  | cleaned hphase =>
      refine iff_of_true ⟨by simp, ?_⟩ rfl
      intro fd client client' hclient hclient' hconnected hdisconnected
      change (s.clients.retain fun _ client => client.connected).lookup fd = some client'
        at hclient'
      rw [HashMap.lookup_retain, Option.filter_eq_some_iff] at hclient'
      rw [hclient'.2] at hdisconnected
      cases hdisconnected
  | shutdownFailed hphase =>
      refine iff_of_false (fun h => ?_) (by simp [Contained])
      simpa [hphase] using h.serves rfl

/-! ## Runs -/

/-- **What keeps the clients apart.**  All steps of a run are isolated if and only if every
one is contained: nothing else that a broken socket does reaches the thread or another
client. -/
theorem isolated_iff {trace : List (Server × Label)}
    (hrun : Run (Fires (step decode maxClients)) Server.init trace s) :
    (∀ p ∈ trace, ∀ s', step decode maxClients p.1 p.2 = some s' →
        Isolated decode p.1 p.2 s') ↔
      ∀ p ∈ trace, Contained p.1 p.2 := by
  constructor
  · intro hisolated p hp
    obtain ⟨s', hstep⟩ := hrun.step_of_mem hp
    exact (isolated_iff_contained hstep).mp (hisolated p hp s' hstep)
  · intro hcontained p hp s' hstep
    exact (isolated_iff_contained hstep).mpr (hcontained p hp)

/-- The only send of an answer to `Ping` goes to the client itself. -/
theorem contained_of_ping {order : List (String × Fd)} {failAt : Option ℕ} {fd : Fd}
    {rest : List Event} {client : Client} {name : String}
    (hphase : s.phase = .reacting fd .ping rest) (hclient : s.clients.lookup fd = some client)
    (hname : client.name = some name) :
    Contained s (.handleClientMsg order failAt) := by
  rintro fd' msg rest' client' hphase' hclient' - connection ⟨k, -, htarget⟩
  cases hphase.symm.trans hphase'
  cases hclient.symm.trans hclient'
  rw [hname] at htarget
  cases k with
  | zero =>
      cases htarget
      rfl
  | succ => cases htarget

/-- Two clients join, and the answer to a ping of the first cannot be sent: it is disconnected,
and the other one stays. -/
theorem isolated_iff_broken :
    ∃ trace s, Run (Fires (step decodeTalk 2)) Server.init trace s ∧
      Label.handleClientMsg [("a", 5), ("b", 6)] (some 0) ∈ trace.map Prod.snd ∧
      s.clients.lookup 5 = none ∧ s.clients.lookup 6 = some (named "b") ∧
      ∀ p ∈ trace, ∀ s', step decodeTalk 2 p.1 p.2 = some s' → Isolated decodeTalk p.1 p.2 s' := by
  obtain ⟨trace, s, hrun, hp⟩ := exists_run_of_replay (step decodeTalk 2) Server.init
    (bothJoin ++ [.arrive 5 (pingLine ++ [newline]), .wait (some [.socket 5]),
      .tryRecvMsg [.take 7], .handleClientMsg [("a", 5), ("b", 6)] (some 0),
      .cleanup [(5, { named "a" with connected := false }), (6, named "b")] true])
    (fun r => decide (
      Label.handleClientMsg [("a", 5), ("b", 6)] (some 0) ∈ r.1.map Prod.snd ∧
      r.2.clients.lookup 5 = none ∧ r.2.clients.lookup 6 = some (named "b") ∧
      ∀ p ∈ r.1, Succeeds p.2 ∨ p.2 = .handleClientMsg [("a", 5), ("b", 6)] (some 0) ∧
        p.1.phase = .reacting 5 .ping [] ∧ p.1.clients.lookup 5 = some (named "a")))
    (by decide +kernel)
  obtain ⟨hfails, hfirst, hsecond, hsteps⟩ := of_decide_eq_true hp
  refine ⟨trace, s, hrun, hfails, hfirst, hsecond, (isolated_iff hrun).mpr fun p hp => ?_⟩
  rcases hsteps p hp with hsucceeds | ⟨hl, hphase, hclient⟩
  · exact contained_of_succeeds hsucceeds
  · rw [hl]
    exact contained_of_ping hphase hclient rfl

/-- A client is turned away and resets the connection: the thread ends with the error of
the "Server full" that cannot be sent. -/
theorem rejected_client_stops_server :
    ∃ trace s s', Run (Fires (step decodeLine 0)) Server.init trace s ∧
      step decodeLine 0 s (.dismiss false) = some s' ∧ s'.phase = .ended false ∧
      ¬ Isolated decodeLine s (.dismiss false) s' := by
  obtain ⟨trace, s, hrun, hp⟩ := exists_run_of_replay (step decodeLine 0) Server.init
    [.wait (some [.listener]), .accept (.client 5), .cleanup [] true, .hangUp 5,
      .wait (some [.socket 5])]
    (fun r => decide (r.2.phase = .handling [.socket 5] ∧ r.2.clients.lookup 5 = none ∧
      r.2.rejectedClients.lookup 5 = some .new))
    (by decide +kernel)
  obtain ⟨hphase, hclient, hrejected⟩ : s.phase = .handling [.socket 5] ∧
      s.clients.lookup 5 = none ∧ s.rejectedClients.lookup 5 = some .new := of_decide_eq_true hp
  refine ⟨trace, s, s.stop false, hrun, ?_, rfl, fun h => ?_⟩
  · simp [step, hphase, hclient, hrejected]
  · simpa [hphase] using h.serves rfl

end RustCourse.Lesson09
