import RustCourse.Lesson09.Steps

/-!
# What becomes of a rejected connection

A connection that finds the server full is put into `rejected_clients` and told so when its
socket is reported.  Then it is marked as disconnected and should go with the next cleanup,
but `cleanup_disconnected` looks at `clients` only.  The connection stays in the map and
registered with `epoll`, so it is told again whenever it is reported.

`dismissed_iff` says that nothing else goes wrong: rejected connections are dismissed once,
and nothing that is marked outlives a call of `process_events`, if and only if no call that
has told a rejected connection returns `Ok` (`ToldAndReturned`).  A call that ends with an
error takes the server with it.  The two sides meet in what the cleanup finds (`Leaves`):
entries of `rejected_clients` are marked where they are told, and nowhere else.
-/

namespace RustCourse.Lesson09

open Chat Transition

/-! ## What is written to a connection -/

/-- The connections that the sends of a handler write to, up to the one that fails. -/
def sent : List Act → Option ℕ → List Fd
  | [], _ => []
  | .register _ :: rest, failAt => sent rest failAt
  | .send connection _ :: rest, none => connection :: sent rest none
  | .send connection _ :: rest, some (n + 1) => connection :: sent rest (some n)
  | .send _ _ :: _, some 0 => []

/-- The connections that a step writes messages to. -/
def written (s : Server) : Label → List Fd
  | .dismiss true =>
      match s.phase with
      | .handling (.socket fd :: _) => [fd]
      | _ => []
  | .handleClientMsg order failAt =>
      match s.phase with
      | .reacting fd msg _ =>
          match s.clients.lookup fd with
          | some client =>
              sent (handleClientMsg s.clientWriters order client.name fd msg).acts failAt
          | none => []
      | _ => []
  | _ => []

/-- `process_events` has returned. -/
def Returned (s : Server) : Prop :=
  s.phase = .waiting ∨ ∃ ok, s.phase = .ended ok

/-- Nothing is left of the connection. -/
structure Forgotten (s : Server) (fd : Fd) : Prop where
  served : fd ∉ s.clients
  rejected : fd ∉ s.rejectedClients
  registered : fd ∉ s.interest

/-- The step puts a new connection into `rejected_clients`. -/
def Rejects (decode : List UInt8 → Option ClientToServerMsg) (maxClients : ℕ)
    (p : Server × Label) (fd : Fd) : Prop :=
  p.2 = .accept (.client fd) ∧
    ∃ s', step decode maxClients p.1 p.2 = some s' ∧ fd ∈ s'.rejectedClients

/-- **Rejected connections are dismissed once.**  As long as the descriptor belongs to the
same connection, it is written to at most once, and nothing is left of the connection when
the `process_events` that did so returns; and when `process_events` returns, no entry of
either map is marked. -/
structure DismissesOnce (decode : List UInt8 → Option ClientToServerMsg) (maxClients : ℕ)
    (trace : List (Server × Label)) : Prop where
  once : ∀ before p mid after fd, trace = before ++ p :: (mid ++ after) →
    Rejects decode maxClients p fd → (∀ q ∈ mid, q.2 ≠ .accept (.client fd)) →
    (mid.flatMap fun q => written q.1 q.2).count fd ≤ 1
  forgets : ∀ before p mid q after fd s', trace = before ++ p :: (mid ++ q :: after) →
    p.2 = .dismiss true → fd ∈ written p.1 p.2 →
    (∀ r ∈ mid, r.2 ≠ .accept (.client fd)) → q.2 ≠ .accept (.client fd) →
    step decode maxClients q.1 q.2 = some s' → Returned s' → Forgotten s' fd
  cleaned : ∀ p ∈ trace, ∀ s', step decode maxClients p.1 p.2 = some s' → Returned s' →
    ∀ fd client, s'.clients.lookup fd = some client ∨ s'.rejectedClients.lookup fd = some client →
      client.connected = true

/-- A call of `process_events` has told a rejected connection that the server is full, and has
returned `Ok`: between the two no other call has begun. -/
def ToldAndReturned (trace : List (Server × Label)) : Prop :=
  ∃ before p mid q after order, trace = before ++ p :: (mid ++ q :: after) ∧
    p.2 = .dismiss true ∧ (∀ r ∈ mid, ∀ got, r.2 ≠ .wait got) ∧ q.2 = .cleanup order true

/-- The entry in `rejected_clients` has `connected == false`. -/
def Marked (s : Server) (fd : Fd) : Prop :=
  ∃ client, s.rejectedClients.lookup fd = some client ∧ client.connected = false

/-- The cleanup finds a marked entry in `rejected_clients`. -/
def Leaves (s : Server) (l : Label) : Prop :=
  (∃ order, l = .cleanup order true) ∧ ∃ fd, Marked s fd

variable {decode : List UInt8 → Option ClientToServerMsg} {maxClients : ℕ} {s s' : Server}
  {l : Label} {trace : List (Server × Label)} {fd : Fd}

/-! ## Who is served -/

/-- The descriptor belongs to a client or to a writer. -/
def Server.Serves (s : Server) (fd : Fd) : Prop :=
  fd ∈ s.clients ∨ ∃ name, s.clientWriters.lookup name = some fd

theorem Server.Serves.isOpen (h : s.Serves fd) : s.Open fd := by
  rcases h with hclient | ⟨name, hwriter⟩
  · exact .inl hclient
  · right; right
    rw [Multiset.mem_map]
    exact ⟨⟨name, fd⟩, Finmap.lookup_eq_some_iff.mp hwriter, rfl⟩

theorem mem_setClient_iff {other : Fd} {client client' : Client}
    (h : s.clients.lookup other = some client) :
    fd ∈ (s.setClient other client').clients ↔ fd ∈ s.clients := by
  have hmem : other ∈ s.clients := Finmap.mem_of_lookup_eq_some h
  rw [Server.setClient, Finmap.mem_insert]
  exact ⟨fun hfd => hfd.elim (fun heq => heq ▸ hmem) id, .inr⟩

theorem mem_tryRecvMsg_iff {other : Fd} {client client' : Client} {rest : List Event}
    (h : s.clients.lookup other = some client) (got : Received ClientToServerMsg) :
    fd ∈ (tryRecvMsg s other client' rest got).clients ↔ fd ∈ s.clients := by
  cases got <;> exact mem_setClient_iff h

private theorem lookup_release {clients : List Client} {clientWriters : HashMap String Fd}
    {name : String} (h : (clients.foldl releaseName clientWriters).lookup name = some fd) :
    clientWriters.lookup name = some fd := by
  induction clients generalizing clientWriters with
  | nil => exact h
  | cons client rest ih =>
      have hrest := ih h
      unfold releaseName at hrest
      split at hrest
      · exact (HashMap.lookup_erase_eq_some.mp hrest).2
      · exact hrest

/-- Only an accepted connection is served that was not served before. -/
theorem serves_of_stepped (h : Stepped decode maxClients s l s') (hserves : s'.Serves fd) :
    s.Serves fd ∨ l = .accept (.client fd) := by
  cases h with
  | arrived | hungUp | waited | turnedAway | aborted | dismissed | skipped => exact .inl hserves
  | terminated | waitFailed | acceptFailed | dismissFailed | shutdownFailed =>
      rcases hserves with hclient | ⟨name, hwriter⟩
      · exact absurd hclient Finmap.notMem_empty
      · simp [Server.stop] at hwriter
  | @accepted other =>
      by_cases heq : fd = other
      · exact .inr (by rw [heq])
      · left
        rcases hserves with hclient | hwriter
        · exact .inl ((Finmap.mem_insert.mp hclient).resolve_left heq)
        · exact .inr hwriter
  | @received _ other _ client got _ socket _ hclient =>
      have hkept : (s.setSocket other socket).clients.lookup other = some client := hclient
      rcases hserves with hmem | ⟨name, hwriter⟩
      · exact .inl (.inl ((mem_tryRecvMsg_iff hkept got).mp hmem))
      · rw [tryRecvMsg_clientWriters] at hwriter
        exact .inl (.inr ⟨name, hwriter⟩)
  | @reacted _ _ other _ _ client _ _ _ _ hclient _ hperform =>
      left
      rcases hserves with hmem | ⟨name, hwriter⟩
      · exact .inl ((mem_setClient_iff hclient).mp hmem)
      -- a writer is in the table under the name of a client, which has not gone
      · cases registered_of_perform hperform with
        | unchanged => exact .inr ⟨name, hwriter⟩
        | @joined joiner =>
            by_cases heq : name = joiner
            · subst heq
              have hown : some other = some fd := (Finmap.lookup_insert _).symm.trans hwriter
              cases hown
              exact .inl (Finmap.mem_of_lookup_eq_some hclient)
            · exact .inr ⟨name, (Finmap.lookup_insert_of_ne _ heq).symm.trans hwriter⟩
  | cleaned =>
      left
      rcases hserves with hmem | ⟨name, hwriter⟩
      · left
        rw [← Finmap.lookup_isSome, HashMap.lookup_retain] at hmem
        exact Finmap.lookup_isSome.mp (Option.isSome_of_isSome_filter _ _ hmem)
      · exact .inr ⟨name, lookup_release hwriter⟩

/-! ## Who is written to -/

private theorem mem_acts_of_mem_sent {acts : List Act} {failAt : Option ℕ}
    (h : fd ∈ sent acts failAt) : ∃ msg, .send fd msg ∈ acts := by
  induction acts generalizing failAt with
  | nil => cases h
  | cons act rest ih =>
      match act, failAt with
      | .register _, failAt =>
          obtain ⟨msg, hmem⟩ := ih h
          exact ⟨msg, List.mem_cons_of_mem _ hmem⟩
      | .send connection msg, none | .send connection msg, some (n + 1) =>
          rcases List.mem_cons.mp h with rfl | hrest
          · exact ⟨msg, List.mem_cons_self⟩
          · obtain ⟨msg, hmem⟩ := ih hrest
            exact ⟨msg, List.mem_cons_of_mem _ hmem⟩
      | .send _ _, some 0 => cases h

/-- A handler sends to its own client and to the registered ones. -/
theorem target_of_acts {order : List (String × Fd)} {name : Option String} {own : Fd}
    {msg : ClientToServerMsg} {reply : ServerToClientMsg}
    (horder : s.clientWriters.Enumerates order)
    (h : .send fd reply ∈ (handleClientMsg s.clientWriters order name own msg).acts) :
    fd = own ∨ ∃ other, s.clientWriters.lookup other = some fd := by
  cases name with
  | none =>
      cases msg with
      | join name =>
          have hown : fd = own := by
            simp only [handleClientMsg, handleUnregisteredClientMsg] at h
            split at h <;> simp at h <;> tauto
          exact .inl hown
      | _ => simp_all [handleClientMsg, handleUnregisteredClientMsg]
  | some name =>
      cases msg with
      | sendDM recipient message =>
          simp only [handleClientMsg, handleRegisteredClient] at h
          split at h
          · simp_all
          · split at h
            -- the recipient was looked up in the table
            · next other hother =>
                right
                refine ⟨recipient, ?_⟩
                simp_all
            · simp_all
      | broadcast message =>
          obtain ⟨⟨other, connection⟩, hitem, heq⟩ := List.mem_map.mp h
          cases heq
          exact .inr ⟨other, horder.mem_iff.mp (List.mem_filter.mp hitem).1⟩
      | _ => simp_all [handleClientMsg, handleRegisteredClient]

/-! ## A rejected connection -/

/-- The events of the batch that are still to be handled. -/
def Phase.pending : Phase → List Event
  | .handling rest => rest
  | .reacting _ _ rest => rest
  | _ => []

private theorem pending_of_stepped (h : Stepped decode maxClients s l s') :
    s'.phase.pending <:+ s.phase.pending ∨
      s.phase = .waiting ∧ l = .wait (some s'.phase.pending) := by
  cases h with
  | arrived | hungUp => exact .inl (List.suffix_refl _)
  | waited hwaiting => exact .inr ⟨hwaiting, rfl⟩
  | terminated | waitFailed | acceptFailed | dismissFailed | shutdownFailed | cleaned =>
      exact .inl List.nil_suffix
  | accepted hphase | turnedAway hphase | aborted hphase | dismissed hphase | skipped hphase =>
      exact .inl (hphase ▸ List.suffix_cons _ _)
  | @received _ _ _ _ got _ _ hphase =>
      left
      rw [hphase]
      cases got <;> exact List.suffix_cons _ _
  | reacted hphase => exact .inl (hphase ▸ List.suffix_refl _)

/-- `process_events` returns at the cleanup, or with an error. -/
theorem waiting_of_stepped (h : Stepped decode maxClients s l s') (hwaiting : s'.phase = .waiting) :
    s.phase = .waiting ∨ ∃ order, l = .cleanup order true := by
  cases h with
  | arrived | hungUp => exact .inl hwaiting
  | cleaned => exact .inr ⟨_, rfl⟩
  | @received _ _ _ _ got => cases got <;> cases hwaiting
  | _ => cases hwaiting

/-- **What a step does to a rejected connection**: nothing, or the thread ends, or it is told
that the server is full. -/
theorem rejected_of_stepped {client : Client} (h : Stepped decode maxClients s l s')
    (hclient : s.rejectedClients.lookup fd = some client) (hunserved : ¬ s.Serves fd) :
    (∃ ok, s'.phase = .ended ok) ∧ fd ∉ written s l ∨
      s'.rejectedClients.lookup fd = some client ∧ fd ∉ written s l ∨
      ∃ rest, s.phase = .handling (.socket fd :: rest) ∧ s'.phase = .handling rest ∧
        written s l = [fd] ∧
        s'.rejectedClients.lookup fd = some { client with connected := false } := by
  cases h with
  | terminated | waitFailed | acceptFailed | dismissFailed | shutdownFailed =>
      exact .inl ⟨⟨_, rfl⟩, List.not_mem_nil⟩
  | arrived | hungUp | waited | accepted | aborted | skipped | cleaned =>
      exact .inr (.inl ⟨hclient, List.not_mem_nil⟩)
  | @turnedAway other _ _ hfree =>
      have hne : fd ≠ other := by
        rintro rfl
        exact hfree (.inr (.inl (Finmap.mem_of_lookup_eq_some hclient)))
      exact .inr (.inl ⟨(Finmap.lookup_insert_of_ne _ hne).trans hclient, List.not_mem_nil⟩)
  -- a message is handled for a client that is served, and so are its recipients
  | @received _ _ _ _ got =>
      right; left
      cases got <;> exact ⟨hclient, List.not_mem_nil⟩
  | @reacted order failAt other msg rest served _ _ _ hphase hserved horder =>
      right; left
      refine ⟨hclient, fun hmem => hunserved ?_⟩
      simp only [written, hphase, hserved] at hmem
      obtain ⟨reply, hact⟩ := mem_acts_of_mem_sent hmem
      rcases target_of_acts horder hact with rfl | hwriter
      · exact .inl (Finmap.mem_of_lookup_eq_some hserved)
      · exact .inr hwriter
  | @dismissed other rest rejected hphase _ hrejected =>
      right
      by_cases heq : fd = other
      · subst heq
        cases hclient.symm.trans hrejected
        exact .inr ⟨rest, hphase, rfl, by simp [written, hphase], Finmap.lookup_insert _⟩
      · refine .inl ⟨?_, by simp [written, hphase, heq]⟩
        exact (Finmap.lookup_insert_of_ne _ heq).trans hclient

/-! ## Every run -/

/-- What is known of the states of a run: no event is pending twice, a rejected connection
is not served, and the thread drops everything when it ends. -/
structure Apart (s : Server) : Prop where
  nodup : s.phase.pending.Nodup
  unserved : ∀ fd ∈ s.rejectedClients, ¬ s.Serves fd
  dropped : (∃ ok, s.phase = .ended ok) → ∀ fd, Forgotten s fd

theorem Apart.stop (ok : Bool) : Apart (s.stop ok) :=
  ⟨List.nodup_nil, fun _ h => absurd h Finmap.notMem_empty,
    fun _ _ => ⟨Finmap.notMem_empty, Finmap.notMem_empty, Finset.notMem_empty _⟩⟩

/-- A step after which the thread has ended drops everything, or leaves the server alone. -/
theorem dropped_of_stepped (h : Stepped decode maxClients s l s')
    (hended : ∃ ok, s'.phase = .ended ok) :
    (∃ ok, s' = s.stop ok) ∨ (∃ ok, s.phase = .ended ok) ∧
      s'.clients = s.clients ∧ s'.rejectedClients = s.rejectedClients ∧
        s'.interest = s.interest := by
  obtain ⟨ok, hended⟩ := hended
  cases h with
  | terminated | waitFailed | acceptFailed | dismissFailed | shutdownFailed => exact .inl ⟨_, rfl⟩
  | arrived | hungUp => exact .inr ⟨⟨ok, hended⟩, rfl, rfl, rfl⟩
  | @received _ _ _ _ got => cases got <;> cases hended
  | _ => cases hended

/-- Only an accepted connection is rejected that was not rejected before. -/
theorem rejected_mono (h : Stepped decode maxClients s l s') (hmem : fd ∈ s'.rejectedClients) :
    fd ∈ s.rejectedClients ∨
      l = .accept (.client fd) ∧ ¬ s.Open fd ∧ s'.clients = s.clients ∧
        s'.clientWriters = s.clientWriters ∧ s'.rejectedClients.lookup fd = some .new := by
  cases h with
  | arrived | hungUp | waited | accepted | aborted | reacted | skipped | cleaned => exact .inl hmem
  | terminated | waitFailed | acceptFailed | dismissFailed | shutdownFailed =>
      exact absurd hmem Finmap.notMem_empty
  | @received _ _ _ _ got => cases got <;> exact .inl hmem
  | @turnedAway other _ _ hfree =>
      by_cases heq : fd = other
      · subst heq
        exact .inr ⟨rfl, hfree, rfl, rfl, Finmap.lookup_insert _⟩
      · exact .inl ((Finmap.mem_insert.mp hmem).resolve_left heq)
  | @dismissed other _ _ _ _ hrejected =>
      left
      rcases Finmap.mem_insert.mp hmem with rfl | hmem
      · exact Finmap.mem_of_lookup_eq_some hrejected
      · exact hmem

theorem Apart.step (h : Apart s) (hlevel : LevelTriggered s l)
    (hstep : Stepped decode maxClients s l s') : Apart s' := by
  refine ⟨?_, fun fd hmem hserves => ?_, fun hended => ?_⟩
  · rcases pending_of_stepped hstep with hsuffix | ⟨-, rfl⟩
    · exact h.nodup.sublist hsuffix.sublist
    · exact hlevel.1
  · rcases rejected_mono hstep hmem with hearlier | ⟨rfl, hfree, hclients, hwriters, -⟩
    · rcases serves_of_stepped hstep hserves with hserved | rfl
      · exact h.unserved fd hearlier hserved
      · cases hstep with
        | accepted _ hfree | turnedAway _ hfree => exact hfree (.inr (.inl hearlier))
    · refine hfree (Server.Serves.isOpen ?_)
      simpa only [Server.Serves, hclients, hwriters] using hserves
  · rcases dropped_of_stepped hstep hended with ⟨ok, rfl⟩ | ⟨hended, hclients, hrejected, hinterest⟩
    · exact (Apart.stop ok).dropped ⟨ok, rfl⟩
    · intro fd
      obtain ⟨hserved, hturned, hregistered⟩ := h.dropped hended fd
      exact ⟨hclients ▸ hserved, hrejected ▸ hturned, hinterest ▸ hregistered⟩

theorem apart_of_run (hrun : Run (Fires (step decode maxClients)) Server.init trace s)
    (hlevel : ∀ p ∈ trace, LevelTriggered p.1 p.2) : Apart s := by
  refine hrun.invariantUnder (C := LevelTriggered) hlevel ?_ fun s l s' h hlevel hstep =>
    h.step hlevel (stepped_of_step hstep)
  refine ⟨List.nodup_nil, fun _ h => absurd h Finmap.notMem_empty, ?_⟩
  rintro ⟨ok, hended⟩
  cases hended

/-- A connection that was rejected and written to `n` times since. -/
inductive Told (s : Server) (fd : Fd) (n : ℕ) : Prop
  | ended : (∃ ok, s.phase = .ended ok) → n ≤ 1 → Told s fd n
  | untold {client : Client} : s.rejectedClients.lookup fd = some client → n = 0 → Told s fd n
  /-- it is not told again in this batch, and there is no other one -/
  | told {client : Client} : s.rejectedClients.lookup fd = some client →
      client.connected = false → s.phase ≠ .waiting → .socket fd ∉ s.phase.pending → n ≤ 1 →
      Told s fd n

theorem written_of_ended {ok : Bool} (h : s.phase = .ended ok) (l : Label) : written s l = [] := by
  unfold written
  split <;> simp [h]

theorem ended_of_stepped {ok : Bool} (h : Stepped decode maxClients s l s')
    (hended : s.phase = .ended ok) : s'.phase = .ended ok := by
  cases h with
  | arrived | hungUp => exact hended
  | terminated hphase | waited hphase | waitFailed hphase | accepted hphase | turnedAway hphase
  | aborted hphase | acceptFailed hphase | received hphase | reacted hphase | dismissed hphase
  | dismissFailed hphase | skipped hphase | cleaned hphase | shutdownFailed hphase =>
      cases hended.symm.trans hphase

theorem Told.step {n : ℕ} (h : Told s fd n) (hapart : Apart s) (hleaves : ¬ Leaves s l)
    (hstep : Stepped decode maxClients s l s') : Told s' fd (n + (written s l).count fd) := by
  have hunserved : ∀ client, s.rejectedClients.lookup fd = some client → ¬ s.Serves fd :=
    fun client hclient => hapart.unserved fd (Finmap.mem_of_lookup_eq_some hclient)
  cases h with
  -- the server has ended, it has not been told yet, or it has been told once
  | ended hended hn =>
      obtain ⟨ok, hended⟩ := hended
      rw [written_of_ended hended, List.count_nil, Nat.add_zero]
      exact .ended ⟨ok, ended_of_stepped hstep hended⟩ hn
  | @untold client hclient hn =>
      rcases rejected_of_stepped hstep hclient (hunserved client hclient) with
        ⟨hended, hquiet⟩ | ⟨hkept, hquiet⟩ | ⟨rest, hphase, hnext, hwritten, htold⟩
      · rw [List.count_eq_zero_of_not_mem hquiet]
        exact .ended hended (by omega)
      · rw [List.count_eq_zero_of_not_mem hquiet]
        exact .untold hkept (by omega)
      · have hnodup := hapart.nodup
        rw [hphase] at hnodup
        refine .told htold rfl (by simp [hnext]) ?_ (by simp [hwritten, hn])
        rw [hnext]
        exact (List.nodup_cons.mp hnodup).1
  | @told client hclient hleft hbusy hpending hn =>
      rcases rejected_of_stepped hstep hclient (hunserved client hclient) with
        ⟨hended, hquiet⟩ | ⟨hkept, hquiet⟩ | ⟨rest, hphase, -⟩
      · rw [List.count_eq_zero_of_not_mem hquiet]
        exact .ended hended (by omega)
      · rw [List.count_eq_zero_of_not_mem hquiet]
        refine .told hkept hleft (fun hwaiting => ?_) (fun hmem => ?_) (by omega)
        · rcases waiting_of_stepped hstep hwaiting with hwaiting | ⟨order, rfl⟩
          · exact hbusy hwaiting
          · exact hleaves ⟨⟨order, rfl⟩, fd, client, hclient, hleft⟩
        -- it is reported again only in a later call
        · rcases pending_of_stepped hstep with hsuffix | ⟨hwaiting, -⟩
          · exact hpending (hsuffix.subset hmem)
          · exact hbusy hwaiting
      · exact absurd (by simp [hphase, Phase.pending]) hpending

/-- What becomes of a rejected connection in the rest of a run. -/
theorem told_of_run {t : Server} {n : ℕ} (hrun : Run (Fires (step decode maxClients)) t trace s)
    (hapart : Apart t) (htold : Told t fd n)
    (hmeets : ∀ p ∈ trace, LevelTriggered p.1 p.2 ∧ ¬ Leaves p.1 p.2) :
    Apart s ∧ Told s fd (n + (trace.flatMap fun p => written p.1 p.2).count fd) := by
  refine hrun.invariantTraceUnder (C := fun s l => LevelTriggered s l ∧ ¬ Leaves s l)
    (I := fun trace s =>
      Apart s ∧ Told s fd (n + (trace.flatMap fun p => written p.1 p.2).count fd))
    hmeets ⟨hapart, by simpa using htold⟩ ?_
  rintro trace s l s' - ⟨hapart, htold⟩ ⟨hlevel, hleaves⟩ hstep
  have hstepped := stepped_of_step hstep
  refine ⟨hapart.step hlevel hstepped, ?_⟩
  simpa [List.flatMap_append, Nat.add_assoc] using htold.step hapart hleaves hstepped

theorem Told.le_one {n : ℕ} (h : Told s fd n) : n ≤ 1 := by
  cases h with
  | ended _ hn | told _ _ _ _ hn => exact hn
  | untold _ hn => omega

/-- A connection that was told is forgotten when `process_events` returns. -/
theorem Told.forgotten {n : ℕ} (h : Told s fd n) (hn : 0 < n) (hapart : Apart s)
    (hreturned : Returned s) : Forgotten s fd := by
  cases h with
  | ended hended => exact hapart.dropped hended fd
  | untold _ hnone => omega
  | told _ _ hbusy => exact hapart.dropped (hreturned.resolve_left hbusy) fd

theorem told_of_rejects {p : Server × Label} (h : Rejects decode maxClients p fd)
    (hstep : step decode maxClients p.1 p.2 = some s') : Told s' fd 0 := by
  obtain ⟨hl, t, hstep', hmem⟩ := h
  cases hstep.symm.trans hstep'
  rw [hl] at hstep
  have hstepped := stepped_of_step hstep
  rcases rejected_mono hstepped hmem with hearlier | ⟨-, -, -, -, hclient⟩
  · have hopen : p.1.Open fd := .inr (.inl hearlier)
    cases hstepped with
    | accepted _ hfree | turnedAway _ hfree => exact absurd hopen hfree
  · exact .untold hclient rfl

theorem told_of_dismiss (hapart : Apart s)
    (hstep : step decode maxClients s (.dismiss true) = some s')
    (hwritten : fd ∈ written s (.dismiss true)) : Told s' fd 1 := by
  have hstepped := stepped_of_step hstep
  cases hstepped with
  | @dismissed other rest client hphase _ hclient =>
      simp only [written, hphase, List.mem_singleton] at hwritten
      subst hwritten
      have hnodup := hapart.nodup
      rw [hphase] at hnodup
      exact .told (Finmap.lookup_insert _) rfl (by simp) (List.nodup_cons.mp hnodup).1 le_rfl

/-- Between two calls of `process_events` no entry is marked. -/
def Clean (s : Server) : Prop :=
  s.phase = .waiting → ∀ fd client,
    s.clients.lookup fd = some client ∨ s.rejectedClients.lookup fd = some client →
    client.connected = true

theorem Clean.step (h : Clean s) (hleaves : ¬ Leaves s l)
    (hstep : Stepped decode maxClients s l s') : Clean s' := by
  intro hwaiting fd client hclient
  cases hstep with
  | arrived | hungUp => exact h hwaiting fd client hclient
  | @received _ _ _ _ got => cases got <;> cases hwaiting
  | @cleaned order hphase =>
      by_contra hleft
      rcases hclient with hclient | hclient
      · rw [HashMap.lookup_retain, Option.filter_eq_some_iff] at hclient
        exact hleft hclient.2
      · exact hleaves ⟨⟨order, rfl⟩, fd, client, hclient, by simpa using hleft⟩
  | _ => cases hwaiting

theorem clean_of_run (hrun : Run (Fires (step decode maxClients)) Server.init trace s)
    (hleaves : ∀ p ∈ trace, ¬ Leaves p.1 p.2) : Clean s := by
  refine hrun.invariantUnder (C := fun s l => ¬ Leaves s l) hleaves ?_
    fun s l s' h hleaves hstep => h.step hleaves (stepped_of_step hstep)
  intro _ fd client hclient
  simp [Server.init] at hclient

private theorem not_dismissesOnce (hrun : Run (Fires (step decode maxClients)) Server.init trace s)
    {p : Server × Label} (hp : p ∈ trace) (hleaves : Leaves p.1 p.2) :
    ¬ DismissesOnce decode maxClients trace := by
  intro h
  obtain ⟨q, l⟩ := p
  obtain ⟨⟨order, rfl⟩, fd, client, hclient, hleft⟩ := hleaves
  obtain ⟨s', hstep⟩ := hrun.step_of_mem hp
  cases stepped_of_step hstep with
  | cleaned =>
      have hconnected := h.cleaned _ hp _ hstep (.inl rfl) fd client (.inr hclient)
      simp [hconnected] at hleft

/-! ## Where marks come from -/

/-- **An entry is marked** when its connection is told, and in no other step. -/
theorem marked_of_stepped (h : Stepped decode maxClients s l s') (hmarked : Marked s' fd) :
    Marked s fd ∨ l = .dismiss true := by
  obtain ⟨client, hclient, hleft⟩ := hmarked
  cases h with
  | arrived | hungUp | waited | accepted | aborted | reacted | skipped | cleaned =>
      exact .inl ⟨client, hclient, hleft⟩
  | terminated | waitFailed | acceptFailed | dismissFailed | shutdownFailed => cases hclient
  | @turnedAway other =>
      left
      refine ⟨client, ?_, hleft⟩
      by_cases heq : fd = other
      · subst heq
        cases (Finmap.lookup_insert _).symm.trans hclient
        cases hleft
      · exact (Finmap.lookup_insert_of_ne _ heq).symm.trans hclient
  | @received _ _ _ _ got =>
      left
      cases got <;> exact ⟨client, hclient, hleft⟩
  | dismissed => exact .inr rfl

/-- A mark stays as long as the server is there. -/
theorem Marked.stepped (hmarked : Marked s fd) (h : Stepped decode maxClients s l s') :
    Marked s' fd ∨ ∃ ok, s'.phase = .ended ok := by
  obtain ⟨client, hclient, hleft⟩ := hmarked
  cases h with
  | arrived | hungUp | waited | accepted | aborted | reacted | skipped | cleaned =>
      exact .inl ⟨client, hclient, hleft⟩
  | terminated | waitFailed | acceptFailed | dismissFailed | shutdownFailed => exact .inr ⟨_, rfl⟩
  | @turnedAway other _ _ hfree =>
      have hne : fd ≠ other := by
        rintro rfl
        exact hfree (.inr (.inl (Finmap.mem_of_lookup_eq_some hclient)))
      exact .inl ⟨client, (Finmap.lookup_insert_of_ne _ hne).trans hclient, hleft⟩
  | @received _ _ _ _ got =>
      left
      cases got <;> exact ⟨client, hclient, hleft⟩
  | @dismissed other _ rejected =>
      left
      by_cases heq : fd = other
      · subst heq
        exact ⟨_, Finmap.lookup_insert _, rfl⟩
      · exact ⟨client, (Finmap.lookup_insert_of_ne _ heq).trans hclient, hleft⟩

theorem ToldAndReturned.append (h : ToldAndReturned trace) (rest : List (Server × Label)) :
    ToldAndReturned (trace ++ rest) := by
  obtain ⟨before, p, mid, q, after, order, rfl, htold, hmid, hreturned⟩ := h
  exact ⟨before, p, mid, q, after ++ rest, order, by simp, htold, hmid, hreturned⟩

/-- Where an entry is marked, a call has told a connection: it is still going on, or it has
returned. -/
theorem told_of_marked (hrun : Run (Fires (step decode maxClients)) Server.init trace s) :
    Marked s fd → ToldAndReturned trace ∨ s.phase ≠ .waiting ∧
      ∃ before p mid, trace = before ++ p :: mid ∧ p.2 = .dismiss true ∧
        ∀ r ∈ mid, ∀ got, r.2 ≠ .wait got := by
  refine hrun.invariantTrace (I := fun trace s => Marked s fd → ToldAndReturned trace ∨
    s.phase ≠ .waiting ∧ ∃ before p mid, trace = before ++ p :: mid ∧ p.2 = .dismiss true ∧
      ∀ r ∈ mid, ∀ got, r.2 ≠ .wait got) ?_ ?_
  · rintro ⟨client, hclient, -⟩
    cases hclient
  · intro trace s l s' _ ih hstep hmarked
    have hstepped := stepped_of_step hstep
    rcases marked_of_stepped hstepped hmarked with hearlier | rfl
    · rcases ih hearlier with hreturned | ⟨hbusy, before, p, mid, rfl, htold, hmid⟩
      · exact .inl (hreturned.append _)
      · -- the call goes on, or this is the cleanup at its end
        by_cases hwaiting : s'.phase = .waiting
        · obtain ⟨order, rfl⟩ := (waiting_of_stepped hstepped hwaiting).resolve_left hbusy
          exact .inl
            ⟨before, p, mid, (s, .cleanup order true), [], order, by simp, htold, hmid, rfl⟩
        · refine .inr ⟨hwaiting, before, p, mid ++ [(s, l)], by simp, htold, ?_⟩
          intro r hr got hl
          rcases List.mem_append.mp hr with hr | hr
          · exact hmid r hr got hl
          · obtain rfl := List.mem_singleton.mp hr
            cases hstepped with
            | terminated hphase | waited hphase | waitFailed hphase => exact hbusy hphase
            | _ => cases hl
    · refine .inr ⟨fun hwaiting => ?_, trace, (s, .dismiss true), [], rfl, rfl, by simp⟩
      cases hstepped with
      | dismissed => cases hwaiting

/-- **What the cleanup finds**: it leaves a marked entry in some step of a run if and only if
a call has told a rejected connection and returned. -/
theorem leaves_iff (hrun : Run (Fires (step decode maxClients)) Server.init trace s) :
    (∃ p ∈ trace, Leaves p.1 p.2) ↔ ToldAndReturned trace := by
  constructor
  · rintro ⟨⟨t, l⟩, hp, ⟨order, rfl⟩, fd, hmarked⟩
    obtain ⟨before, after, rfl⟩ := List.append_of_mem hp
    obtain ⟨u, hbefore, -, -⟩ := hrun.split before _ after rfl
    rcases told_of_marked hbefore hmarked with hreturned | ⟨-, first, p, mid, rfl, htold, hmid⟩
    · exact hreturned.append _
    · exact ⟨first, p, mid, (t, .cleanup order true), after, order, by simp, htold, hmid, rfl⟩
  · rintro ⟨before, p, mid, q, after, order, rfl, htold, -, hreturned⟩
    obtain ⟨t, -, hstep, hrest⟩ := hrun.split before p _ rfl
    obtain ⟨v, hmid, hlast, -⟩ := hrest.split mid q after rfl
    rw [htold] at hstep
    obtain ⟨fd, hmarked⟩ : ∃ fd, Marked t fd := by
      cases stepped_of_step hstep with
      | @dismissed fd => exact ⟨fd, _, Finmap.lookup_insert _, rfl⟩
    -- the mark is still there when the call returns, unless the server is gone
    have hkept : Marked q.1 fd ∨ ∃ ok, q.1.phase = .ended ok := by
      refine hmid.invariant (I := fun s => Marked s fd ∨ ∃ ok, s.phase = .ended ok)
        (.inl hmarked) ?_
      rintro s l s' (hmarked | ⟨ok, hended⟩) hstep
      · exact hmarked.stepped (stepped_of_step hstep)
      · exact .inr ⟨ok, ended_of_stepped (stepped_of_step hstep) hended⟩
    refine ⟨q, by simp, ⟨order, hreturned⟩, fd, hkept.resolve_right ?_⟩
    rintro ⟨ok, hended⟩
    rw [hreturned] at hlast
    cases stepped_of_step hlast with
    | cleaned hphase => cases hended.symm.trans hphase

/-- **When rejected connections are dismissed once.**  In a run with a truthful `epoll`, this
holds if and only if no call of `process_events` that has told a rejected connection returns
`Ok`. -/
theorem dismissed_iff (hrun : Run (Fires (step decode maxClients)) Server.init trace s)
    (hlevel : ∀ p ∈ trace, LevelTriggered p.1 p.2) :
    DismissesOnce decode maxClients trace ↔ ¬ ToldAndReturned trace := by
  rw [← leaves_iff hrun]
  constructor
  -- a call that leaves a mark behind is one that does not dismiss
  · rintro h ⟨p, hp, hleaves⟩
    exact not_dismissesOnce hrun hp hleaves h
  · intro hnone
    have hleaves : ∀ p ∈ trace, ¬ Leaves p.1 p.2 := fun p hp hleaves => hnone ⟨p, hp, hleaves⟩
    have hmeets : ∀ p ∈ trace, LevelTriggered p.1 p.2 ∧ ¬ Leaves p.1 p.2 :=
      fun p hp => ⟨hlevel p hp, hleaves p hp⟩
    refine ⟨?_, ?_, ?_⟩
    -- between two rejections a connection is told once at most
    · rintro before p mid after fd rfl hrejects -
      obtain ⟨t, hbefore, hstep, hrest⟩ := hrun.split before p _ rfl
      obtain ⟨u, hmid, -⟩ := hrest.of_append
      have hapart := apart_of_run (hbefore.snoc hstep) fun q hq => hlevel q (by simp_all; tauto)
      have htold := (told_of_run hmid hapart (told_of_rejects hrejects hstep)
        fun q hq => hmeets q (by simp [hq])).2
      simpa using htold.le_one
    · rintro before p mid q after fd s' rfl hp hwritten - - hlast hreturned
      obtain ⟨t, hbefore, hstep, hrest⟩ := hrun.split before p _ rfl
      obtain ⟨-, hmid, -, -⟩ := hrest.split mid q after rfl
      have hapart := apart_of_run hbefore fun q hq => hlevel q (by simp [hq])
      obtain ⟨t', l⟩ := p
      subst hp
      obtain ⟨hapart', htold⟩ := told_of_run (hmid.snoc hlast)
        (hapart.step (l := .dismiss true) trivial (stepped_of_step hstep))
        (told_of_dismiss hapart hstep hwritten) fun r hr => hmeets r (by simp_all; tauto)
      exact htold.forgotten (by omega) hapart' hreturned
    -- when the call returns every mark is gone
    · intro p hp s' hstep hreturned fd client hclient
      obtain ⟨before, -, hinitial, hbefore, -⟩ := hrun.exists_before hp
      have hlast : Run (Fires (step decode maxClients)) Server.init (before ++ [p]) s' :=
        hbefore.snoc hstep
      have hmem : ∀ q ∈ before ++ [p], q ∈ trace := by
        intro q hq
        rcases List.mem_append.mp hq with hq | hq
        · exact hinitial.subset hq
        · exact List.mem_singleton.mp hq ▸ hp
      rcases hreturned with hwaiting | hended
      · exact clean_of_run hlast (fun q hq => hleaves q (hmem q hq)) hwaiting fd client hclient
      · obtain ⟨hserved, hturned, -⟩ :=
          (apart_of_run hlast fun q hq => hlevel q (hmem q hq)).dropped hended fd
        rcases hclient with hclient | hclient
        · exact absurd (Finmap.mem_of_lookup_eq_some hclient) hserved
        · exact absurd (Finmap.mem_of_lookup_eq_some hclient) hturned

/-- No call has told a connection and returned if no successful cleanup comes behind a told
connection. -/
theorem not_toldAndReturned (h : trace.Pairwise fun p q =>
    p.2 = .dismiss true → ∀ order, q.2 ≠ .cleanup order true) : ¬ ToldAndReturned trace := by
  rintro ⟨before, p, mid, q, after, order, rfl, htold, -, hreturned⟩
  have hafter := (List.pairwise_append.mp h).2.1
  exact (List.pairwise_cons.mp hafter).1 q (by simp) htold order hreturned

/-- Two connections are rejected, and the calls that accepted them return.  Then one call tells
the first and fails to tell the second: it returns with an error, and everything is dropped. -/
theorem dismissed_iff_failed :
    ∃ trace s, Run (Fires (step decodeLine 0)) Server.init trace s ∧
      (trace.flatMap fun p => written p.1 p.2) = [1] ∧ s.phase = .ended false ∧
      DismissesOnce decodeLine 0 trace := by
  obtain ⟨trace, s, hrun, hp⟩ := exists_run_of_replay (step decodeLine 0) Server.init
    [.wait (some [.listener]), .accept (.client 1), .cleanup [] true,
      .wait (some [.listener]), .accept (.client 2), .cleanup [] true, .hangUp 1, .hangUp 2,
      .wait (some [.socket 1, .socket 2]), .dismiss true, .dismiss false]
    (fun r => decide ((r.1.flatMap fun p => written p.1 p.2) = [1] ∧ r.2.phase = .ended false ∧
      (∀ p ∈ r.1, LevelTriggered p.1 p.2) ∧
      r.1.Pairwise fun p q : Server × Label => p.2 = .dismiss true → q.2 = .dismiss false))
    (by decide +kernel)
  obtain ⟨hwritten, hphase, hlevel, hlast⟩ : (trace.flatMap fun p => written p.1 p.2) = [1] ∧
      s.phase = .ended false ∧ (∀ p ∈ trace, LevelTriggered p.1 p.2) ∧
      trace.Pairwise fun p q => p.2 = .dismiss true → q.2 = .dismiss false := of_decide_eq_true hp
  refine ⟨trace, s, hrun, hwritten, hphase, (dismissed_iff hrun hlevel).mpr ?_⟩
  refine not_toldAndReturned (hlast.imp fun hend htold order hreturned => ?_)
  cases (hend htold).symm.trans hreturned

/-- A rejected connection is told twice that the server is full, and stays. -/
theorem rejected_connection_is_told_again :
    ∃ trace s, Run (Fires (step decodeLine 0)) Server.init trace s ∧
      (∀ p ∈ trace, LevelTriggered p.1 p.2) ∧ (trace.flatMap fun p => written p.1 p.2) = [1, 1] ∧
      ¬ DismissesOnce decodeLine 0 trace := by
  obtain ⟨trace, s, hrun, hp⟩ := exists_run_of_replay (step decodeLine 0) Server.init
    [.wait (some [.listener]), .accept (.client 1), .cleanup [] true, .hangUp 1,
      .wait (some [.socket 1]), .dismiss true, .cleanup [] true, .wait (some [.socket 1]),
      .dismiss true]
    (fun r => decide ((∀ p ∈ r.1, LevelTriggered p.1 p.2) ∧
      (r.1.flatMap fun p => written p.1 p.2) = [1, 1] ∧
      ∃ p ∈ r.1, p.2 = .cleanup [] true ∧
        p.1.rejectedClients.lookup 1 = some { Client.new with connected := false }))
    (by decide +kernel)
  obtain ⟨hlevel, hwritten, p, hp, hcleanup, hmarked⟩ : (∀ p ∈ trace, LevelTriggered p.1 p.2) ∧
      (trace.flatMap fun p => written p.1 p.2) = [1, 1] ∧
      ∃ p ∈ trace, p.2 = .cleanup [] true ∧
        p.1.rejectedClients.lookup 1 = some { Client.new with connected := false } :=
    of_decide_eq_true hp
  refine ⟨trace, s, hrun, hlevel, hwritten, not_dismissesOnce hrun hp ?_⟩
  exact ⟨⟨[], hcleanup⟩, 1, _, hmarked, rfl⟩

end RustCourse.Lesson09
