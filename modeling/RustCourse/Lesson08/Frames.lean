import RustCourse.Chat.Json
import RustCourse.Lesson08.Codec
import RustCourse.Lesson08.Names
import RustCourse.Lib.Framing

/-!
# What the lesson 08 server puts on the wire

`MessageWriter::write` hands a frame to `write_all`, which puts it on the socket in as many
pieces as the socket takes.  So a write, which is one step of the server, becomes a
sequence of steps in which other threads run (`Wire.step`).

The writer of a connection belongs to the handler that serves it until the `insert`, and to
whoever holds the guard of its entry from then on.  Entries are not changed while anybody
holds a read guard of the table, and no two entries have the same connection, so a
connection has at most one such thread (`holds_unique`), and who writes is that thread
(`holds_of_writing`).  `frames_never_interleave` follows by the rules for frames.
-/

namespace RustCourse.Lesson08

open Chat Transition Framing

/-! ## The wire -/

/-- The threads that write. -/
inductive Thread
  | handler (t : ThreadId)
  | acceptor
  deriving DecidableEq, Repr

/-- A connection that the server has accepted. -/
inductive Connection
  /-- served by handler `t` -/
  | served (t : ThreadId)
  /-- the `n`-th one that was told "Server is full" -/
  | refused (n : ℕ)
  deriving DecidableEq, Repr

/-- The message a handler is writing, and the connection. -/
def Phase.writing (self : ThreadId) : Phase → Option (ThreadId × ServerToClientMsg)
  | .refusing reply => some (self, reply)
  | .welcoming _ => some (self, .welcome)
  | .serving _ _ (.write connection msg :: _) _ => some (connection, msg)
  | _ => none

/-- How the write ends that this step ends, and whose it is. -/
def Label.outcome : Label → Option (Thread × Bool)
  | .handler t (.wrote ok) => some (.handler t, ok)
  | .acceptor (.refused ok) => some (.acceptor, ok)
  | _ => none

/-- The thread that takes the step, if it is one of those that write. -/
def Label.thread : Label → Option Thread
  | .handler t _ => some (.handler t)
  | .acceptor _ => some .acceptor
  | .drop _ => none

/-- The server, and the bytes on the wire. -/
structure Wire where
  server : Server
  sinks : Sinks Thread Connection UInt8
  /-- the connections that were refused -/
  refusals : ℕ

namespace Wire

/-- Nothing is on the wire. -/
def init : Wire := ⟨.init, .empty, 0⟩

/-- What a thread is writing, and where. -/
def writing (w : Wire) : Thread → Option (Connection × ServerToClientMsg)
  | .handler t => ((w.server.phase t).writing t).map fun (connection, msg) =>
      (.served connection, msg)
  | .acceptor =>
      if w.server.acceptor = .refusing then
        some (.refused w.refusals, .error "Server is full")
      else none

/-- A piece of a frame is written, or the server moves. -/
inductive Label
  /-- `write_all` puts `n` bytes more on the wire -/
  | put (thread : Thread) (n : ℕ)
  | server (l : Lesson08.Label)
  deriving DecidableEq, Repr

/-- A write ends well when its frame is on the wire, and may fail at any time. -/
def step (encode : ServerToClientMsg → List UInt8) (maxClients : ℕ) (w : Wire) :
    Label → Option Wire
  | .put thread n =>
      match w.writing thread with
      | some (connection, msg) =>
          if 0 < n ∧ w.sinks.progress thread + n ≤ (frame encode msg).length then
            some { w with sinks := w.sinks.put thread connection (frame encode msg) n }
          else none
      | none => none
  | .server l =>
      match Lesson08.step maxClients w.server l with
      | some server =>
          match l.outcome with
          | some (thread, ok) =>
              match w.writing thread with
              | some (connection, msg) =>
                  if ok = true → w.sinks.progress thread = (frame encode msg).length then
                    some
                      { server
                        sinks := w.sinks.finish thread connection ok
                        refusals := w.refusals + if thread = .acceptor then 1 else 0 }
                  else none
              | none => none
          | none => some { w with server }
      | none => none

end Wire

/-! ## Who holds a writer -/

/-- The handler has not made its `insert`: the writer of its connection is its own. -/
def Phase.owns : Phase → Bool
  | .reading => true
  | .checking _ => true
  | .checked _ _ => true
  | .refusing _ => true
  | .welcoming _ => true
  | .inserting _ => true
  | _ => false

/-- The thread holds the writer of the connection. -/
inductive Wire.Holds (w : Wire) : Thread → Connection → Prop
  | own {t : ThreadId} : (w.server.phase t).owns = true → Holds w (.handler t) (.served t)
  | entry {t c : ThreadId} {name : String} : name ∈ (w.server.phase t).held →
      w.server.clients.lookup name = some c → Holds w (.handler t) (.served c)
  | refusing : w.server.acceptor = .refusing → Holds w .acceptor (.refused w.refusals)

section Server

variable {s s' : Server} {t u : ThreadId} {name : String} {action : Action} {maxClients : ℕ}
  {trace : List (Server × Label)}

/-! ### Entries -/

theorem Phase.not_entered_of_owns {phase : Phase} (h : phase.owns = true) :
    phase.entered = false := by
  cases phase <;> simp_all [owns, entered]

/-- No connection has two entries, and one that has an entry was handed over by its handler. -/
structure Handed (s : Server) : Prop where
  injective : ∀ name name' t, s.clients.lookup name = some t →
    s.clients.lookup name' = some t → name = name'
  entered : ∀ name t, s.clients.lookup name = some t → (s.phase t).entered = true

theorem Handed.moved (h : Handed s) (hmoved : Moved s t action s') : Handed s' := by
  have hentered : ∀ u, (s.phase u).entered = true → (s'.phase u).entered = true := by
    intro u hu
    by_cases hself : u = t
    · subst hself
      exact hmoved.entered_mono hu
    · rwa [hmoved.phase_ne hself]
  -- the table is left alone, or a client is inserted, or one is removed
  rcases hmoved.clients with hclients | ⟨name, hphase, hclients⟩ | ⟨name, hphase, hclients⟩
  · exact ⟨hclients ▸ h.injective,
      fun name' u hu => hentered u (h.entered name' u (hclients ▸ hu))⟩
  -- the client that is inserted was under no name before
  · have hnew : ∀ name', s.clients.lookup name' ≠ some t := by
      intro name' hlookup
      have hgone := h.entered name' t hlookup
      simp [hphase, Phase.entered] at hgone
    constructor
    · rw [hclients]
      exact fun _ _ _ => HashMap.injective_insert h.injective hnew
    · intro name' u hu
      rw [hclients] at hu
      rcases HashMap.lookup_insert_eq_some.mp hu with ⟨-, rfl⟩ | ⟨-, hold⟩
      · obtain ⟨order, -, rfl⟩ := hmoved.of_inserting hphase
        simp [Phase.entered]
      · exact hentered u (h.entered name' u hold)
  · have hlookup : ∀ name' u, s'.clients.lookup name' = some u →
        s.clients.lookup name' = some u := by
      intro name' u hu
      rw [hclients] at hu
      exact (HashMap.lookup_erase_eq_some.mp hu).2
    exact ⟨fun name₁ name₂ u h₁ h₂ => h.injective name₁ name₂ u (hlookup _ _ h₁) (hlookup _ _ h₂),
      fun name' u hu => hentered u (h.entered name' u (hlookup _ _ hu))⟩

theorem handed (hrun : Run (Fires (step maxClients)) Server.init trace s) : Handed s := by
  refine hrun.invariantTrace (I := fun _ s => Handed s) ?_ ?_
  · constructor <;> simp [Server.init]
  · intro trace s l s' hrun h hstep
    by_cases hhandler : ∃ t action, l = .handler t action
    · obtain ⟨t, action, rfl⟩ := hhandler
      exact h.moved (moved_of_handlerStep hstep)
    · obtain ⟨hclients, hphase⟩ := env_of_step hrun hstep (by simpa using hhandler)
      refine ⟨hclients ▸ h.injective, fun name t ht => ?_⟩
      have hentered := h.entered name t (hclients ▸ ht)
      rcases hphase t with hsame | ⟨habsent, -⟩
      · rwa [hsame]
      · simp [habsent, Phase.entered] at hentered

/-! ### Guards of entries -/

/-- Whoever carries out these acts, holding the writers of `held`, holds the writer of every
connection it writes to. -/
def Locked (clients : HashMap String ThreadId) : List String → List Act → Prop
  | _, [] => True
  | held, .lock name :: rest => Locked clients (name :: held) rest
  | held, .write connection _ :: rest =>
      (∃ name ∈ held, clients.lookup name = some connection) ∧ Locked clients held rest
  | held, .unlock name :: rest => Locked clients (held.erase name) rest

theorem locked_reply (clients : HashMap String ThreadId) (name : String) (msg : ServerToClientMsg) :
    Locked clients [] (reply clients name msg) := by
  unfold reply
  split
  · next client hclient => simp [Locked, hclient]
  · trivial

theorem locked_writeAll {clients : HashMap String ThreadId} {items : List (String × ThreadId)}
    (h : ∀ item ∈ items, clients.lookup item.1 = some item.2) (msg : ServerToClientMsg) :
    Locked clients [] (Chat.writeAll items msg) := by
  induction items with
  | nil => trivial
  | cons item rest ih =>
      have hrest := ih fun other hother => h other (List.mem_cons_of_mem _ hother)
      have hitem := h item List.mem_cons_self
      simpa [Chat.writeAll, Locked, hitem] using hrest

/-- The plan of a request is carried out under the guards it takes. -/
theorem locked_handleJoined {clients : HashMap String ThreadId}
    {order : List (String × ThreadId)} (horder : clients.Enumerates order) (name : String)
    (msg : ClientToServerMsg) : Locked clients [] (handleJoined clients order name msg).acts := by
  cases msg with
  | join | ping | listUsers => exact locked_reply _ _ _
  | broadcast message =>
      exact locked_writeAll (fun item hitem => horder.mem_iff.mp (List.mem_filter.mp hitem).1) _
  | sendDM recipient message =>
      simp only [handleJoined]
      split
      · trivial
      · next sender hsender =>
          split
          · simp [Locked, hsender]
          · split
            · next other hother => simp [Locked, hother]
            · simp [Locked, hsender]

/-- Handlers write under the guards they hold, and no two hold the same one. -/
structure Guarded (s : Server) : Prop where
  locked : ∀ t name held acts bail, s.phase t = .serving name held acts bail →
    Locked s.clients held acts
  disjoint : ∀ t u name, name ∈ (s.phase t).held → name ∈ (s.phase u).held → t = u

/-- A handler gets the guard of an entry only if nobody holds it. -/
theorem Moved.held (h : Moved s t action s') (hname : name ∈ (s'.phase t).held) :
    name ∈ (s.phase t).held ∨ s.WriterFree name := by
  cases h with
  | @joined got =>
      simp only [Server.setPhase_phase, if_true] at hname
      unfold joinClient at hname
      split at hname <;> cases hname
  | @received _ got => cases got <;> simp [receive, Phase.held] at hname
  | @lock _ held other _ _ _ hphase hfree =>
      simp only [Server.setPhase_phase, if_true, Phase.held, List.mem_cons] at hname
      rcases hname with rfl | hname
      · exact .inr hfree
      · exact .inl (by rwa [hphase])
  | unlock hphase =>
      simp only [Server.setPhase_phase, if_true, Phase.held] at hname
      exact .inl (by rw [hphase]; exact List.mem_of_mem_erase hname)
  | @served _ _ bail => cases bail <;> simp [Phase.held] at hname
  | _ => simp_all [Phase.held]

/-- Nobody changes the table under a read guard. -/
theorem Moved.clients_of_reads (h : Moved s t action s') (hspawned : u < s.spawned)
    (hreads : (s.phase u).reads = true) : s'.clients = s.clients := by
  cases h with
  | insert _ hfree | remove _ hfree =>
      have hnone := (hfree.2 u hspawned).2
      rw [hreads] at hnone
      cases hnone
  | _ => rfl

theorem Guarded.moved (h : Guarded s) (habsent : ∀ u : ℕ, s.spawned ≤ u → s.phase u = .absent)
    (hmoved : Moved s t action s') : Guarded s' := by
  have hspawned : ∀ u : ℕ, s.phase u ≠ .absent → u < s.spawned := by
    intro u hu
    by_contra hle
    exact hu (habsent u (Nat.le_of_not_lt hle))
  -- a guard that the handler gets was free
  have hdisjoint : ∀ u name, u ≠ t → name ∈ (s'.phase t).held → name ∉ (s'.phase u).held := by
    intro u name hu ht hname
    rw [hmoved.phase_ne hu] at hname
    rcases hmoved.held ht with hbefore | hfree
    · exact hu (h.disjoint u t name hname hbefore)
    · refine hfree u (hspawned u fun habsent => ?_) hname
      simp [habsent, Phase.held] at hname
  constructor
  · intro u name held acts bail hu
    by_cases hself : u = t
    · subst hself
      cases hmoved with
      | @joined got =>
          simp only [Server.setPhase_phase, if_true] at hu
          unfold joinClient at hu
          split at hu <;> cases hu
      | @received _ got => cases got <;> simp [receive] at hu
      | @served _ _ bail => cases bail <;> simp at hu
      | @serve _ msg _ _ _ horder =>
          simp only [Server.setPhase_phase, if_true] at hu
          cases hu
          exact locked_handleJoined horder _ msg
      | lock hphase | unlock hphase =>
          simp only [Server.setPhase_phase, if_true] at hu
          cases hu
          have hlocked := h.locked u _ _ _ _ hphase
          exact hlocked
      | wrote hphase =>
          simp only [Server.setPhase_phase, if_true] at hu
          cases hu
          exact (h.locked u _ _ _ _ hphase).2
      | _ => simp at hu
    -- an entry does not change while somebody reads the table
    · rw [hmoved.phase_ne hself] at hu
      rw [hmoved.clients_of_reads (hspawned u (by simp [hu])) (by simp [hu, Phase.reads])]
      exact h.locked u name held acts bail hu
  · intro v u name hv hu
    by_cases hvt : v = t
    · subst hvt
      by_contra hne
      exact hdisjoint u name (Ne.symm hne) hv hu
    · by_cases hut : u = t
      · subst hut
        exact absurd hv (hdisjoint v name hvt hu)
      · rw [hmoved.phase_ne hvt] at hv
        rw [hmoved.phase_ne hut] at hu
        exact h.disjoint v u name hv hu

theorem guarded (hrun : Run (Fires (step maxClients)) Server.init trace s) : Guarded s := by
  refine hrun.invariantTrace (I := fun _ s => Guarded s) ?_ ?_
  · constructor <;> simp [Server.init, Phase.held]
  · intro trace s l s' hrun h hstep
    by_cases hhandler : ∃ t action, l = .handler t action
    · obtain ⟨t, action, rfl⟩ := hhandler
      exact h.moved (absent_of_le hrun) (moved_of_handlerStep hstep)
    · obtain ⟨hclients, hphase⟩ := env_of_step hrun hstep (by simpa using hhandler)
      refine ⟨fun t name held acts bail ht => ?_, fun t u name ht hu => ?_⟩
      · rcases hphase t with hsame | ⟨-, hreading⟩
        · rw [hclients]
          exact h.locked t name held acts bail (hsame ▸ ht)
        · simp [hreading] at ht
      · have hheld : ∀ u, name ∈ (s'.phase u).held → name ∈ (s.phase u).held := by
          intro u hu
          rcases hphase u with hsame | ⟨-, hreading⟩
          · exact hsame ▸ hu
          · simp [hreading, Phase.held] at hu
        exact h.disjoint t u name (hheld t ht) (hheld u hu)

end Server

/-! ## Exclusive access -/

section Access

variable {w : Wire} {trace : List (Server × Label)} {maxClients : ℕ} {thread other : Thread}
  {connection : Connection} {msg : ServerToClientMsg}

/-- **A connection has at most one thread that holds its writer.** -/
theorem holds_unique (hrun : Run (Fires (step maxClients)) Server.init trace w.server)
    (h : w.Holds thread connection) (hother : w.Holds other connection) : thread = other := by
  have hhanded := handed hrun
  cases h with
  | own howns =>
      cases hother with
      | own => rfl
      | entry _ hlookup =>
          have hentered := hhanded.entered _ _ hlookup
          simp [Phase.not_entered_of_owns howns] at hentered
  | entry hheld hlookup =>
      cases hother with
      | own howns =>
          have hentered := hhanded.entered _ _ hlookup
          simp [Phase.not_entered_of_owns howns] at hentered
      | entry hheld' hlookup' =>
          obtain rfl := hhanded.injective _ _ _ hlookup hlookup'
          rw [(guarded hrun).disjoint _ _ _ hheld hheld']
  | refusing =>
      cases hother
      rfl

/-- **Whoever writes holds the writer.** -/
theorem holds_of_writing (hrun : Run (Fires (step maxClients)) Server.init trace w.server)
    (h : w.writing thread = some (connection, msg)) : w.Holds thread connection := by
  cases thread with
  | acceptor =>
      simp only [Wire.writing] at h
      split at h <;> cases h
      next hrefusing => exact .refusing hrefusing
  -- a handler writes to its own client until the `insert`, and else under a guard
  | handler t =>
      obtain ⟨⟨c, msg⟩, hwriting, heq⟩ := Option.map_eq_some_iff.mp h
      cases heq
      cases hphase : w.server.phase t with
      | refusing reply =>
          simp only [hphase, Phase.writing] at hwriting
          cases hwriting
          exact .own (by simp [hphase, Phase.owns])
      | welcoming name =>
          simp only [hphase, Phase.writing] at hwriting
          cases hwriting
          exact .own (by simp [hphase, Phase.owns])
      | serving name held acts bail =>
          match acts with
          | .write _ _ :: _ =>
              simp only [hphase, Phase.writing] at hwriting
              cases hwriting
              obtain ⟨entry, hentry, hlookup⟩ := ((guarded hrun).locked t _ _ _ _ hphase).1
              exact .entry (by simpa [hphase, Phase.held] using hentry) hlookup
          | [] | .lock _ :: _ | .unlock _ :: _ => simp [hphase, Phase.writing] at hwriting
      | _ => simp [hphase, Phase.writing] at hwriting

theorem exclusive_writing (hrun : Run (Fires (step maxClients)) Server.init trace w.server) :
    Exclusive w.writing :=
  fun _ _ _ _ _ h h' => holds_unique hrun (holds_of_writing hrun h) (holds_of_writing hrun h')

theorem thread_of_outcome {l : Label} {ok : Bool} (h : l.outcome = some (thread, ok)) :
    l.thread = some thread := by
  unfold Label.outcome at h
  split at h <;> cases h <;> rfl

/-- A thread that is writing does nothing but end its write. -/
theorem writing_none_of_step {l : Label} {server : Server}
    (hstep : step maxClients w.server l = some server) (houtcome : l.outcome = none)
    (hthread : l.thread = some thread) : w.writing thread = none := by
  cases l with
  | drop => cases hthread
  | handler t action =>
      cases hthread
      cases moved_of_handlerStep hstep with
      | refused | welcomed | unwelcomed | wrote | broken => cases houtcome
      | _ => simp_all [Wire.writing, Phase.writing]
  | acceptor action =>
      cases hthread
      cases action with
      | refused => cases houtcome
      | _ =>
          simp only [step, acceptorStep] at hstep
          have hbusy : w.server.acceptor ≠ .refusing := by
            intro hrefusing
            simp [hrefusing] at hstep
          simp [Wire.writing, hbusy]

/-- A thread goes on writing what it is writing while others move. -/
theorem writing_of_other {l : Label} {server : Server}
    (sinks : Sinks Thread Connection UInt8) (refusals : ℕ)
    (hrun : Run (Fires (step maxClients)) Server.init trace w.server)
    (hstep : step maxClients w.server l = some server) (hthread : l.thread ≠ some thread)
    (hrefusals : thread = .acceptor → refusals = w.refusals) :
    (⟨server, sinks, refusals⟩ : Wire).writing thread = w.writing thread := by
  cases thread with
  | handler t =>
      have hother : ∀ action, l ≠ .handler t action := by
        rintro action rfl
        exact hthread rfl
      rcases phase_of_other hrun hstep hother with hsame | ⟨habsent, hreading⟩
      · simp [Wire.writing, hsame]
      · simp [Wire.writing, habsent, hreading, Phase.writing]
  | acceptor =>
      have hacceptor : server.acceptor = w.server.acceptor := by
        cases l with
        | handler => exact (moved_of_handlerStep hstep).acceptor
        | drop => exact (drop_frame hstep).2.2.2
        | acceptor => exact absurd rfl hthread
      simp [Wire.writing, hacceptor, hrefusals rfl]

end Access

/-! ## Runs on the wire -/

section Runs

variable {encode : ServerToClientMsg → List UInt8} {maxClients : ℕ} {w w' : Wire}
  {trace : List (Wire × Wire.Label)} {connection : Connection} {l : Wire.Label}

/-- **What a step on the wire does**: a thread puts a piece of its frame on the wire, or the
server takes a step, which may end a write. -/
inductive Wired (encode : ServerToClientMsg → List UInt8) (maxClients : ℕ) (w : Wire) :
    Wire → Prop
  | put {thread : Thread} {c msg n} : w.writing thread = some (c, msg) →
      w.sinks.progress thread + n ≤ (frame encode msg).length →
      Wired encode maxClients w { w with sinks := w.sinks.put thread c (frame encode msg) n }
  | quiet {l : Label} {server} : step maxClients w.server l = some server → l.outcome = none →
      Wired encode maxClients w { w with server }
  | finished {l : Label} {server thread ok c msg} : step maxClients w.server l = some server →
      l.thread = some thread → w.writing thread = some (c, msg) →
      (ok = true → w.sinks.progress thread = (frame encode msg).length) →
      Wired encode maxClients w
        { server
          sinks := w.sinks.finish thread c ok
          refusals := w.refusals + if thread = .acceptor then 1 else 0 }

theorem wired_of_step (h : w.step encode maxClients l = some w') :
    Wired encode maxClients w w' := by
  cases l with
  | put thread n =>
      simp only [Wire.step] at h
      split at h
      · next hwriting =>
          split at h <;> cases h
          next hn => exact .put hwriting hn.2
      · cases h
  | server l =>
      simp only [Wire.step] at h
      split at h
      · next server hstep =>
          split at h
          · next thread ok houtcome =>
              split at h
              · next hwriting =>
                  split at h <;> cases h
                  next hcomplete =>
                    exact .finished hstep (thread_of_outcome houtcome) hwriting hcomplete
              · cases h
          · next houtcome =>
              cases h
              exact .quiet hstep houtcome
      · cases h

/-- What happens on the wire is a run of the server. -/
theorem server_run (hrun : Run (Fires (Wire.step encode maxClients)) Wire.init trace w) :
    ∃ trace, Run (Fires (step maxClients)) Server.init trace w.server := by
  refine hrun.invariant (I := fun w => ∃ trace, Run (Fires (step maxClients)) Server.init trace
    w.server) ⟨[], .nil⟩ ?_
  rintro w l w' ⟨trace, hserver⟩ hwire
  cases wired_of_step hwire with
  | put => exact ⟨trace, hserver⟩
  | quiet hstep | finished hstep => exact ⟨_, hserver.fire _ hstep⟩

theorem framed (hrun : Run (Fires (Wire.step encode maxClients)) Wire.init trace w) :
    Framed (frame encode) w.writing w.sinks := by
  refine hrun.invariantTrace (I := fun _ w => Framed (frame encode) w.writing w.sinks) ?_ ?_
  · have hnone : Wire.init.writing = fun _ => none := by
      funext thread
      cases thread <;> rfl
    rw [hnone]
    exact .empty
  · intro trace w l w' hrun h hwire
    obtain ⟨before, hserver⟩ := server_run hrun
    obtain ⟨after, hserver'⟩ := server_run (hrun.snoc hwire)
    have hbefore := exclusive_writing hserver
    have hafter := exclusive_writing hserver'
    cases wired_of_step hwire with
    | put hwriting hn => exact h.put hbefore hwriting hn
    -- the step ends no write: it may start one of its own thread
    | @quiet l _ hstep houtcome =>
        have hothers : ∀ u, l.thread ≠ some u → _ := fun u hu =>
          writing_of_other w.sinks w.refusals hserver hstep hu fun _ => rfl
        cases hthread : l.thread with
        | none =>
            have hsame : Wire.writing _ = w.writing := funext fun u => hothers u (by simp [hthread])
            rwa [hsame]
        | some thread =>
            exact h.start hafter (writing_none_of_step hstep houtcome hthread)
              fun u hu => hothers u (by simp [hthread, Ne.symm hu])
    | finished hstep hthread hwriting hcomplete =>
        refine h.finish hbefore hafter hwriting (fun u hu => ?_) hcomplete
        refine writing_of_other _ _ hserver hstep (by simp [hthread, Ne.symm hu]) ?_
        rintro rfl
        simp [Ne.symm hu]

/-- **Frames never interleave.**  In every state of a run, what was written to a connection
on which no write has failed is a sequence of complete frames and a proper prefix of one
more, and if there is a prefix, the one thread that holds the writer of the connection is
writing that frame. -/
theorem frames_never_interleave
    (hrun : Run (Fires (Wire.step encode maxClients)) Wire.init trace w)
    (hintact : w.sinks.broken connection = false) :
    ∃ msgs part, w.sinks.sent connection = MessageWriter.writeAll encode msgs ++ part ∧
      (part ≠ [] → ∃ thread msg, w.writing thread = some (connection, msg) ∧
        part <+: frame encode msg ∧ part ≠ frame encode msg ∧
        ∀ other, w.Holds other connection ↔ other = thread) := by
  obtain ⟨before, hserver⟩ := server_run hrun
  obtain ⟨msgs, part, hsent, hpart⟩ := (framed hrun).result hintact
  refine ⟨msgs, part, by rw [writeAll_eq, hsent], fun hne => ?_⟩
  obtain ⟨thread, msg, hwriting, hinitial, hproper⟩ := hpart hne
  have hholds := holds_of_writing hserver hwriting
  refine ⟨thread, msg, hwriting, hinitial, hproper, fun other => ⟨fun hother => ?_, ?_⟩⟩
  · exact holds_unique hserver hother hholds
  · rintro rfl
    exact hholds

/-- A handler has put a part of its `Welcome` on the wire. -/
theorem frames_never_interleave_welcome :
    ∃ trace w,
      Run (Fires (Wire.step ServerToClientMsg.toVec 1)) Wire.init trace w ∧
      w.sinks.sent (.served 0) = [9, 0, 0, 0, 34, 87] ∧
      ∃ msgs part,
        w.sinks.sent (.served 0) = MessageWriter.writeAll ServerToClientMsg.toVec msgs ++ part ∧
        (part ≠ [] → ∃ thread msg, w.writing thread = some (.served 0, msg) ∧
          part <+: frame ServerToClientMsg.toVec msg ∧
          part ≠ frame ServerToClientMsg.toVec msg ∧
          ∀ other, w.Holds other (.served 0) ↔ other = thread) := by
  obtain ⟨trace, w, hrun, hp⟩ := exists_run_of_replay (Wire.step ServerToClientMsg.toVec 1)
    Wire.init
    ((connects 0 ++ (joins 0 "a").take 3).map Wire.Label.server ++
      [.put (.handler 0) 1, .put (.handler 0) 5])
    (fun r => decide (r.2.sinks.sent (.served 0) = [9, 0, 0, 0, 34, 87] ∧
      r.2.sinks.broken (.served 0) = false)) (by decide +kernel)
  obtain ⟨hsent, hintact⟩ : w.sinks.sent (.served 0) = [9, 0, 0, 0, 34, 87] ∧
      w.sinks.broken (.served 0) = false := of_decide_eq_true hp
  exact ⟨trace, w, hrun, hsent, frames_never_interleave hrun hintact⟩

/-! ### Every run of the server -/

/-- Who ends a write was writing. -/
theorem writing_of_outcome {l : Label} {server : Server} {thread : Thread} {ok : Bool}
    (hstep : step maxClients w.server l = some server) (houtcome : l.outcome = some (thread, ok)) :
    ∃ c msg, w.writing thread = some (c, msg) := by
  cases l with
  | drop => cases houtcome
  | handler t action =>
      cases moved_of_handlerStep hstep with
      | refused hphase | welcomed hphase | unwelcomed hphase | wrote hphase | broken hphase =>
          cases houtcome
          simp [Wire.writing, hphase, Phase.writing]
      | _ => cases houtcome
  | acceptor action =>
      cases action with
      | refused ok =>
          cases houtcome
          simp only [step, acceptorStep] at hstep
          split at hstep
          · next hrefusing => simp [Wire.writing, hrefusing]
          · cases hstep
      | _ => cases houtcome

/-- **Nothing is lost on the wire**: every run of the server is one in which every frame goes
out in one piece. -/
theorem exists_wire_run {trace : List (Server × Label)} {s : Server}
    (hrun : Run (Fires (step maxClients)) Server.init trace s) :
    ∃ trace w, Run (Fires (Wire.step encode maxClients)) Wire.init trace w ∧ w.server = s ∧
      ∀ thread, w.sinks.progress thread = 0 := by
  refine hrun.invariant (I := fun s => ∃ trace w,
    Run (Fires (Wire.step encode maxClients)) Wire.init trace w ∧ w.server = s ∧
      ∀ thread, w.sinks.progress thread = 0) ⟨[], .init, .nil, rfl, fun _ => rfl⟩ ?_
  rintro s l s' ⟨trace, w, hwire, rfl, hprogress⟩ hstep
  -- whole frames in one piece are a run on the wire for any run of the server
  have hstep : step maxClients w.server l = some s' := hstep
  cases houtcome : l.outcome with
  | none =>
      have hlast : w.step encode maxClients (.server l) = some { w with server := s' } := by
        simp [Wire.step, hstep, houtcome]
      exact ⟨_, _, hwire.fire _ hlast, rfl, hprogress⟩
  | some outcome =>
      obtain ⟨thread, ok⟩ := outcome
      obtain ⟨c, msg, hwriting⟩ := writing_of_outcome hstep houtcome
      -- the frame is written in one piece before the write ends
      let w₁ : Wire :=
        { w with sinks := w.sinks.put thread c (frame encode msg) (frame encode msg).length }
      have hput : w.step encode maxClients (.put thread (frame encode msg).length) = some w₁ := by
        simp [Wire.step, hwriting, hprogress, w₁]
      have hwriting₁ : w₁.writing thread = some (c, msg) := hwriting
      have hwhole : w₁.sinks.progress thread = (frame encode msg).length := by
        simp [w₁, Sinks.put, hprogress]
      have hstep₁ : step maxClients w₁.server l = some s' := hstep
      have hend : w₁.step encode maxClients (.server l) = some
          { server := s'
            sinks := w₁.sinks.finish thread c ok
            refusals := w₁.refusals + if thread = .acceptor then 1 else 0 } := by
        simp only [Wire.step, hstep₁, houtcome, hwriting₁, hwhole, implies_true, if_true]
      refine ⟨_, _, (hwire.fire _ hput).fire _ hend, rfl, fun u => ?_⟩
      by_cases hself : u = thread
      · simp [hself, Sinks.finish]
      · simp [hself, Sinks.finish, w₁, Sinks.put, hprogress]

end Runs

end RustCourse.Lesson08
