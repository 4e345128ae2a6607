import RustCourse.NetworkChat.Serving

/-!
# What brings down the network chat server

A broken client does, as soon as anybody writes to it: the write is unwrapped under the guard,
by the thread of another client or by the accept loop, so the `Mutex` is poisoned; and the
accept loop panics when it next locks it, or when it joins the thread.  So does a client that
comes back under its old address before it has been removed.  Without these, nothing panics,
and the accept loop can come back to `accept` from every state: it waits for nobody but the
holder of the lock, who can finish its call.

## Strategy

For the loop to be back at `accept`, a run is put together from pieces (`Leads`): the holder of
the lock finishes its call, the accept loop gets the guard, and so on.  Conversely a
disturbance leads to a state in which the panic cannot be avoided any more (`Doomed`), and from
there it is enough to follow the party that is doomed.
-/

namespace RustCourse.NetworkChat.Stage02

open Transition

variable {s s' t u : Server} {p q : Party} {action : Action} {l : Label}

/-! ## Runs without a disturbance -/

/-- A run from one state to another without a disturbance. -/
def Leads (s t : Server) : Prop :=
  ∃ trace, Run (Fires step) s trace t ∧ ∀ x ∈ trace, ¬ Disturbs x.1 x.2

theorem Leads.refl (s : Server) : Leads s s := ⟨[], .nil, nofun⟩

theorem Leads.single (h : step s l = some t) (hclean : ¬ Disturbs s l) : Leads s t := by
  refine ⟨_, .single h, fun x hx => ?_⟩
  rwa [List.mem_singleton.mp hx]

theorem Leads.trans (h : Leads s t) (h' : Leads t u) : Leads s u := by
  obtain ⟨trace, hrun, hclean⟩ := h
  obtain ⟨trace', hrun', hclean'⟩ := h'
  refine ⟨trace ++ trace', hrun.append hrun', fun x hx => ?_⟩
  rcases List.mem_append.mp hx with hx | hx
  · exact hclean x hx
  · exact hclean' x hx

theorem serving_of_run (h : Serving s) {trace : List (Server × Label)}
    (hrun : Run (Fires step) s trace t) (hclean : ∀ x ∈ trace, ¬ Disturbs x.1 x.2) : Serving t :=
  hrun.invariantUnder (C := fun s l => ¬ Disturbs s l) hclean h
    fun _ l _ hserving hclean hstep => hserving.step (p := l.1) (moved_of_step hstep) hclean

theorem Leads.serving (hleads : Leads s t) (h : Serving s) : Serving t := by
  obtain ⟨trace, hrun, hclean⟩ := hleads
  exact serving_of_run h hrun hclean

/-! ## A call under the guard -/

theorem Phase.holds.sending {phase : Phase} (h : phase.holds) :
    ∃ call rest, phase = .sending call rest := by
  cases phase with
  | sending call rest => exact ⟨call, rest, rfl⟩
  | _ => exact absurd h id

/-- What a call of thread `n` has done at its end. -/
def Finished (call : Call) (n : ℕ) (t : Server) : Prop :=
  match call with
  | .addClient _ _ => True
  | .removeClient address => address ∉ t.clients
  | .broadcast source _ => t.phase (.client n) = .reading source

section Calls

variable {call : Call} {rest : List (SocketAddr × ℕ)} {address : SocketAddr} {n : ℕ}

/-- All its writes succeed. -/
theorem leads_sent (hphase : s.phase p = .sending call rest) :
    ∃ t, Leads s t ∧ t.phase = Function.update s.phase p (.sending call []) ∧
      t.clients = s.clients := by
  induction rest generalizing s with
  | nil =>
      refine ⟨s, .refl s, ?_, rfl⟩
      rw [← hphase, Function.update_eq_self]
  | cons item rest ih =>
      obtain ⟨a, socket⟩ := item
      set t : Server := { s.setPhase p (.sending call rest) with
        sent := s.sent ++ [(socket, call.content)] } with ht
      have hstep : step s (p, .wrote true) = some t := by
        simp [step, hphase, ht]
      have hthen : t.phase p = .sending call rest := by
        simp [ht]
      obtain ⟨u, hleads, hsent, hclients⟩ := ih hthen
      refine ⟨u, (Leads.single hstep (by rintro ⟨⟩)).trans hleads, ?_, hclients⟩
      rw [hsent]
      simp [ht]

/-- The lock is granted. -/
theorem leads_locked (h : Serving s) (hphase : s.phase p = .locking call)
    (hfree : s.holder = none) (hnew : ∀ a n, call = .addClient a n → a ∉ s.clients) :
    ∃ t rest, Leads s t ∧ t.phase = Function.update s.phase p (.sending call rest) := by
  obtain ⟨order, horder⟩ := s.clients.exists_enumerates
  have hstep : step s (p, .lock order) =
      some { s.setPhase p (.sending call (order.filter fun item => item.1 ≠ call.source)) with
        holder := some p } := by
    simp [step, hphase, hfree, h.unpoisoned, horder]
  refine ⟨_, _, Leads.single hstep ?_, rfl⟩
  rintro (_ | ⟨hlocking, hmem⟩)
  rw [hphase] at hlocking
  cases hlocking
  exact hnew _ _ rfl hmem

/-- The rest of the call. -/
theorem leads_finished (hphase : s.phase p = .sending call []) : Leads s (s.finish p call) := by
  refine Leads.single (l := (p, .finish)) ?_ (by rintro ⟨⟩)
  simp [step, hphase]

private theorem leads_spawned (hphase : s.phase .acceptLoop = .spawning address n) :
    ∃ t, Leads s t ∧ t.phase .acceptLoop = .accepting := by
  set t : Server := { (s.setPhase .acceptLoop .accepting).setPhase (.client n)
      (.reading address) with
    handles := s.handles ++ [n]
    spawned := s.spawned + 1 } with ht
  have hstep : step s (.acceptLoop, .spawn) = some t := by
    simp [step, hphase, ht]
  refine ⟨t, Leads.single hstep (by rintro ⟨⟩), ?_⟩
  simp [ht]

/-- The accept loop adds its client, and comes back to `accept`. -/
theorem accepts_of_sending (h : Serving s)
    (hphase : s.phase .acceptLoop = .sending (.addClient address n) rest) :
    ∃ t, Leads s t ∧ t.phase .acceptLoop = .accepting := by
  obtain ⟨t, hsent, hthen, hclients⟩ := leads_sent hphase
  have hlast : t.phase .acceptLoop = .sending (.addClient address n) [] := by
    rw [hthen, Function.update_self]
  have hnew : address ∉ t.clients := hclients ▸ h.fresh address n rest hphase
  have hspawning : (t.finish .acceptLoop (.addClient address n)).phase .acceptLoop =
      .spawning address n := by
    rw [Server.finish_addClient hnew]
    simp
  obtain ⟨u, hspawned, haccepting⟩ := leads_spawned hspawning
  exact ⟨u, (hsent.trans (leads_finished hlast)).trans hspawned, haccepting⟩

/-- A client's call comes to its end. -/
theorem client_finishes (h : Serving s) (hphase : s.phase (.client n) = .sending call rest) :
    ∃ t, Leads s t ∧ t.holder = none ∧ t.phase .acceptLoop = s.phase .acceptLoop ∧
      Finished call n t := by
  obtain ⟨t, hsent, hthen, -⟩ := leads_sent hphase
  have hlast : t.phase (.client n) = .sending call [] := by
    rw [hthen, Function.update_self]
  have hloop : t.phase .acceptLoop = s.phase .acceptLoop := by
    rw [hthen, Function.update_of_ne (by simp)]
  refine ⟨_, hsent.trans (leads_finished hlast), ?_⟩
  cases call with
  | addClient address socket =>
      exact absurd (h.ofClient hphase nofun) id
  | removeClient address =>
      have hmem : address ∈ t.clients := ((hsent.serving h).remove hlast).1
      rw [Server.finish_removeClient hmem]
      refine ⟨rfl, ?_, ?_⟩
      · simpa using hloop
      · simp [Finished]
  | broadcast source message =>
      refine ⟨rfl, ?_, ?_⟩
      · simpa [Server.finish] using hloop
      · simp [Server.finish, Finished]

/-- A thread that waits for a lock nobody has makes its call. -/
theorem client_calls (h : Serving s) (hfree : s.holder = none)
    (hphase : s.phase (.client n) = .locking call) :
    ∃ t, Leads s t ∧ t.holder = none ∧ t.phase .acceptLoop = s.phase .acceptLoop ∧
      Finished call n t := by
  have hnew : ∀ a k, call = .addClient a k → a ∉ s.clients := by
    rintro a k rfl
    exact absurd (h.ofClient hphase nofun) id
  obtain ⟨t, rest, hlocked, hgranted⟩ := leads_locked h hphase hfree hnew
  have hsending : t.phase (.client n) = .sending call rest := by
    rw [hgranted, Function.update_self]
  have hsame : t.phase .acceptLoop = s.phase .acceptLoop := by
    rw [hgranted, Function.update_of_ne (by simp)]
  obtain ⟨u, hleads, hdone, hloop, hthen⟩ := client_finishes (hlocked.serving h) hsending
  exact ⟨u, hlocked.trans hleads, hdone, hloop.trans hsame, hthen⟩

/-- Whoever has the guard gives it back, without the accept loop. -/
theorem leads_free (h : Serving s) (hidle : ¬ (s.phase .acceptLoop).holds) :
    ∃ t, Leads s t ∧ t.holder = none ∧ t.phase .acceptLoop = s.phase .acceptLoop := by
  cases hholder : s.holder with
  | none => exact ⟨s, .refl s, hholder, rfl⟩
  | some p =>
      have hholds := (h.held p).mp hholder
      cases p with
      | acceptLoop => exact absurd hholds hidle
      | client n =>
          obtain ⟨call, rest, hphase⟩ := hholds.sending
          obtain ⟨t, hleads, hfree, hloop, -⟩ := client_finishes h hphase
          exact ⟨t, hleads, hfree, hloop⟩

/-- A client disconnects, and its thread removes it. -/
theorem client_leaves (h : Serving s) (hfree : s.holder = none)
    (hphase : s.phase (.client n) = .reading address) :
    ∃ t, Leads s t ∧ t.holder = none ∧ t.phase .acceptLoop = s.phase .acceptLoop ∧
      address ∉ t.clients := by
  set u := s.setPhase (.client n) (.locking (.removeClient address)) with hu
  have hstep : step s (.client n, .read .eof) = some u := by
    simp [step, hphase, hu]
  have hclosed : Leads s u := Leads.single hstep (by rintro ⟨⟩)
  have hlocking : u.phase (.client n) = .locking (.removeClient address) := by
    simp [hu]
  obtain ⟨t, hleads, hdone, hloop, hgone⟩ := client_calls (hclosed.serving h) hfree hlocking
  refine ⟨t, hclosed.trans hleads, hdone, ?_, hgone⟩
  simpa [hu] using hloop

/-- While the accept loop waits for the lock, a client can leave the table. -/
theorem leads_vacant (h : Serving s) (hfree : s.holder = none)
    (hloop : s.phase .acceptLoop = .locking call) (address : SocketAddr) :
    ∃ t, Leads s t ∧ t.holder = none ∧ t.phase .acceptLoop = .locking call ∧
      address ∉ t.clients := by
  -- if the address is taken, let the thread that serves it run to its end
  by_cases hmem : address ∈ s.clients
  swap
  · exact ⟨s, .refl s, hfree, hloop, hmem⟩
  obtain ⟨n, hlookup⟩ := Finmap.mem_iff.mp hmem
  rcases (h.registered address n).mp hlookup with hserves | hspawning
  · cases hphase : s.phase (.client n) with
    | reading a =>
        rw [hphase] at hserves
        cases hserves
        rw [← hloop]
        exact client_leaves h hfree hphase
    | locking call' =>
        rw [hphase] at hserves
        obtain ⟨t, hleads, hdone, hsame, hthen⟩ := client_calls h hfree hphase
        rw [← hloop, ← hsame]
        cases call' with
        | addClient a k => exact absurd (h.ofClient hphase nofun) id
        | removeClient a =>
            cases hserves
            exact ⟨t, hleads, hdone, rfl, hthen⟩
        -- a broadcast first finishes, then the thread reads the end of its stream
        | broadcast source message =>
            cases hserves
            obtain ⟨u, hleads', hdone', hsame', hgone⟩ :=
              client_leaves (hleads.serving h) hdone hthen
            exact ⟨u, hleads.trans hleads', hdone', hsame', hgone⟩
    | sending call' rest =>
        have hholds := (h.held (.client n)).mpr (by rw [hphase]; exact trivial)
        exact nomatch hfree.symm.trans hholds
    | _ =>
        rw [hphase] at hserves
        exact nomatch hserves
  · rw [hloop] at hspawning
    exact nomatch hspawning

/-- The accept loop gets the lock when its address is free. -/
theorem accepts_of_locking (h : Serving s)
    (hphase : s.phase .acceptLoop = .locking (.addClient address n)) :
    ∃ t, Leads s t ∧ t.phase .acceptLoop = .accepting := by
  have hidle : ¬ (s.phase .acceptLoop).holds := by
    rw [hphase]
    exact id
  obtain ⟨t, hleads, hfree, hloop⟩ := leads_free h hidle
  have hloop := hloop.trans hphase
  obtain ⟨u, hleads', hfree', hlocking, hnew⟩ :=
    leads_vacant (hleads.serving h) hfree hloop address
  have hserving := (hleads.trans hleads').serving h
  obtain ⟨v, rest, hlocked, hgranted⟩ :=
    leads_locked hserving hlocking hfree' (by rintro a k ⟨⟩; exact hnew)
  have hsending : v.phase .acceptLoop = .sending (.addClient address n) rest := by
    rw [hgranted, Function.update_self]
  obtain ⟨w, hleads'', haccepting⟩ := accepts_of_sending (hlocked.serving hserving) hsending
  exact ⟨w, ((hleads.trans hleads').trans hlocked).trans hleads'', haccepting⟩

/-- It gets past a handle, and joins the thread if that has ended. -/
theorem leads_reaped {kept handles : List ℕ}
    (hphase : s.phase .acceptLoop = .reaping address kept (n :: handles)) :
    ∃ t kept', Leads s t ∧ t.phase .acceptLoop = .reaping address kept' handles := by
  by_cases hended : s.phase (.client n) = .ended
  · have hstep : step s (.acceptLoop, .reap true) =
        some (s.setPhase .acceptLoop (.reaping address kept handles)) := by
      simp [step, hphase, hended]
    refine ⟨_, kept, Leads.single hstep (by rintro ⟨⟩), ?_⟩
    simp
  · have hstep : step s (.acceptLoop, .reap false) =
        some (s.setPhase .acceptLoop (.reaping address (kept ++ [n]) handles)) := by
      simp [step, hphase]
    refine ⟨_, kept ++ [n], Leads.single hstep (by rintro ⟨⟩), ?_⟩
    simp

/-- It lets the client in or turns it away. -/
theorem leads_decided {kept : List ℕ} (hphase : s.phase .acceptLoop = .reaping address kept []) :
    ∃ t, Leads s t ∧ (t.phase .acceptLoop = .accepting ∨
      t.phase .acceptLoop = .locking (.addClient address s.spawned)) := by
  by_cases hfull : maxClients ≤ kept.length
  · have hstep : step s (.acceptLoop, .count) =
        some { s.setPhase .acceptLoop .accepting with handles := kept } := by
      simp [step, hphase, hfull]
    refine ⟨_, Leads.single hstep (by rintro ⟨⟩), .inl ?_⟩
    simp
  · have hstep : step s (.acceptLoop, .count) =
        some { s.setPhase .acceptLoop (.locking (.addClient address s.spawned)) with
          handles := kept } := by
      simp [step, hphase, hfull]
    refine ⟨_, Leads.single hstep (by rintro ⟨⟩), .inr ?_⟩
    simp

private theorem accepts_of_reaping (h : Serving s) {kept handles : List ℕ}
    (hphase : s.phase .acceptLoop = .reaping address kept handles) :
    ∃ t, Leads s t ∧ t.phase .acceptLoop = .accepting := by
  induction handles generalizing s kept with
  | nil =>
      obtain ⟨t, hdecided, haccepting | hlocking⟩ := leads_decided hphase
      · exact ⟨t, hdecided, haccepting⟩
      · obtain ⟨u, hleads, haccepting⟩ := accepts_of_locking (hdecided.serving h) hlocking
        exact ⟨u, hdecided.trans hleads, haccepting⟩
  | cons n handles ih =>
      obtain ⟨t, kept', hreaped, hreaping⟩ := leads_reaped hphase
      obtain ⟨u, hleads, haccepting⟩ := ih (hreaped.serving h) hreaping
      exact ⟨u, hreaped.trans hleads, haccepting⟩

/-- **The accept loop can come back to `accept`**, unless an error of the listener ended it. -/
theorem leads_accepting (h : Serving s) :
    s.phase .acceptLoop = .ended ∨ ∃ t, Leads s t ∧ t.phase .acceptLoop = .accepting := by
  have hplaced : (s.phase .acceptLoop).OfLoop s.spawned := h.placed .acceptLoop
  cases hphase : s.phase .acceptLoop with
  | ended => exact .inl rfl
  | accepting => exact .inr ⟨s, .refl s, hphase⟩
  | reaping address kept handles => exact .inr (accepts_of_reaping h hphase)
  | spawning address n => exact .inr (leads_spawned hphase)
  | panicked => exact absurd hphase (h.running _)
  | absent | reading address =>
      rw [hphase] at hplaced
      exact absurd hplaced id
  | locking call =>
      rw [hphase] at hplaced
      cases call with
      | addClient address n => exact .inr (accepts_of_locking h hphase)
      | removeClient address | broadcast source message => exact absurd hplaced id
  | sending call rest =>
      rw [hphase] at hplaced
      cases call with
      | addClient address n => exact .inr (accepts_of_sending h hphase)
      | removeClient address | broadcast source message => exact absurd hplaced id

end Calls

/-! ## A client under an address that is taken -/

/-- The accept loop has panicked, or is about to: it adds a client whose address is in the
table. -/
inductive Doomed (s : Server) : Prop
  | panicked : s.phase .acceptLoop = .panicked → Doomed s
  | adding {address n rest} : s.phase .acceptLoop = .sending (.addClient address n) rest →
      address ∈ s.clients → Doomed s

theorem Server.finish_acceptLoop {n : ℕ} (call : Call) :
    (s.finish (.client n) call).phase .acceptLoop = s.phase .acceptLoop := by
  unfold Server.finish
  cases call with
  | addClient address socket | removeClient address =>
      dsimp only
      split <;> simp
  | broadcast source message => simp

/-- A thread leaves the accept loop where it is. -/
theorem acceptLoop_of_client (h : WellFormed s) {n : ℕ} (hmoved : Moved s (.client n) action s') :
    s'.phase .acceptLoop = s.phase .acceptLoop := by
  cases hmoved with
  | spawned hphase => exact absurd (h.ofClient hphase nofun) id
  | unread => rfl
  | finished => exact Server.finish_acceptLoop _
  | writeFailed => simp
  | _ => simp

/-- Only a call that comes to its end changes the table. -/
theorem clients_of_moved (hmoved : Moved s p action s') :
    s'.clients = s.clients ∨ ∃ call, s.phase p = .sending call [] := by
  cases hmoved with
  | @finished call hphase => exact .inr ⟨call, hphase⟩
  | _ => exact .inl rfl

theorem not_panicked_of_moved (hmoved : Moved s p action s') : s.phase p ≠ .panicked := by
  cases hmoved <;> simp_all only [ne_eq, reduceCtorEq, not_false_eq_true]

theorem Doomed.step (h : Doomed s) (hformed : WellFormed s) (hmoved : Moved s p action s') :
    Doomed s' := by
  cases p with
  -- a client cannot save the accept loop from its panic: it does not move it
  | client n =>
      have hloop := acceptLoop_of_client hformed hmoved
      cases h with
      | panicked hpanicked => exact .panicked (hloop.trans hpanicked)
      | adding hadding hmem =>
          refine .adding (hloop.trans hadding) ?_
          rcases clients_of_moved hmoved with hsame | ⟨call, hphase⟩
          · rwa [hsame]
          · -- the guard is the accept loop's
            have hparty := hformed.held.unique (p := .acceptLoop) (q := .client n)
              (by rw [hadding]; exact trivial) (by rw [hphase]; exact trivial)
            exact nomatch hparty
  -- the accept loop itself can only go on to the insert, which finds the entry
  | acceptLoop =>
      cases h with
      | panicked hpanicked => exact absurd hpanicked (not_panicked_of_moved hmoved)
      | @adding address n _ hadding hmem =>
          cases hmoved with
          | @wrote _ _ _ rest' hphase =>
              cases hadding.symm.trans hphase
              refine @Doomed.adding _ address n rest' ?_ hmem
              simp
          | writeFailed =>
              apply Doomed.panicked
              simp
          | finished hphase =>
              cases hadding.symm.trans hphase
              rw [Server.finish_addClient_again hmem]
              apply Doomed.panicked
              simp
          | _ => simp_all only [reduceCtorEq]

/-! ## The server stays up -/

/-- Nothing has panicked, and the accept loop can come back to `accept`, unless an error of the
listener ended it. -/
structure KeepsServing (s : Server) : Prop where
  unpoisoned : s.poisoned = false
  running : ∀ p, s.phase p ≠ .panicked
  accepts : s.phase .acceptLoop = .ended ∨
    ∃ trace t, Run (Fires step) s trace t ∧ t.phase .acceptLoop = .accepting

theorem Serving.keepsServing (h : Serving s) : KeepsServing s where
  unpoisoned := h.unpoisoned
  running := h.running
  accepts := by
    rcases leads_accepting h with hended | ⟨t, ⟨trace, hrun, -⟩, haccepting⟩
    · exact .inl hended
    · exact .inr ⟨trace, t, hrun, haccepting⟩

theorem Doomed.not_keepsServing (h : Doomed s) (hformed : WellFormed s) : ¬ KeepsServing s := by
  intro hkeeps
  rcases hkeeps.accepts with hended | ⟨trace, t, hrun, haccepting⟩
  · cases h with
    | panicked hpanicked => exact nomatch hpanicked.symm.trans hended
    | adding hadding _ => exact nomatch hadding.symm.trans hended
  · have hdoomed : WellFormed t ∧ Doomed t :=
      hrun.invariant (I := fun s => WellFormed s ∧ Doomed s) ⟨hformed, h⟩ fun s l t h hstep =>
        have hmoved : Moved s l.1 l.2 t := moved_of_step hstep
        ⟨h.1.step hmoved, h.2.step h.1 hmoved⟩
    cases hdoomed.2 with
    | panicked hpanicked => exact nomatch hpanicked.symm.trans haccepting
    | adding hadding _ => exact nomatch hadding.symm.trans haccepting

/-- The server does not survive a disturbance. -/
theorem not_keepsServing_of_disturbs (hformed : WellFormed s) (hdisturbs : Disturbs s l)
    (hstep : step s l = some t) (hkeeps : KeepsServing s) : ¬ KeepsServing t := by
  cases hdisturbs with
  | write =>
      cases moved_of_step hstep with
      | writeFailed => exact fun h => nomatch h.unpoisoned
  | @address party order address n hphase hmem =>
      have hmoved := moved_of_step hstep
      refine Doomed.not_keepsServing ?_ (hformed.step hmoved)
      have hplaced := hformed.placed party
      rw [hphase] at hplaced
      obtain ⟨rfl, -⟩ := hplaced.acceptLoop id nofun
      cases hmoved with
      | lockPanicked _ _ hpoisoned => exact nomatch hpoisoned.symm.trans hkeeps.unpoisoned
      | @locked call _ hlocking =>
          cases hphase.symm.trans hlocking
          refine @Doomed.adding _ address n
            (order.filter fun item => item.1 ≠ (Call.addClient address n).source) ?_ hmem
          simp

/-! ## Every run -/

/-- **A run keeps the server up** exactly if nothing in it disturbs a call under the guard. -/
theorem keeps_serving_iff {trace : List (Server × Label)}
    (hrun : Run (Fires step) .init trace s) :
    (∀ before t, before <+: trace → Run (Fires step) .init before t → KeepsServing t) ↔
      ∀ x ∈ trace, ¬ Disturbs x.1 x.2 := by
  constructor
  · intro hkeeps x hx hdisturbs
    obtain ⟨before, after, rfl⟩ := List.append_of_mem hx
    obtain ⟨u, hbefore, hstep, -⟩ := hrun.split before x after rfl
    have hformed : WellFormed x.1 :=
      hbefore.invariant wellFormed_init fun _ _ _ h hstep => h.step (moved_of_step hstep)
    refine not_keepsServing_of_disturbs hformed hdisturbs hstep ?_ ?_
    · exact hkeeps before x.1 (List.prefix_append ..) hbefore
    · exact hkeeps (before ++ [x]) u ⟨after, by simp⟩ (.snoc hbefore hstep)
  · intro hclean before t hpre hbefore
    refine (serving_of_run serving_init hbefore fun x hx => ?_).keepsServing
    exact hclean x (hpre.subset hx)

/-- The clients `a` and `b` connect. -/
def twoConnect : List Label :=
  [(.acceptLoop, .accept (some "a")), (.acceptLoop, .count), (.acceptLoop, .lock []),
    (.acceptLoop, .finish), (.acceptLoop, .spawn), (.acceptLoop, .accept (some "b")),
    (.acceptLoop, .reap false), (.acceptLoop, .count), (.acceptLoop, .lock [("a", 0)]),
    (.acceptLoop, .wrote true), (.acceptLoop, .finish), (.acceptLoop, .spawn)]

/-- Two clients connect, and one sends a message to the other. -/
theorem keeps_serving_iff_two :
    ∃ trace s, Run (Fires step) .init trace s ∧ s.sent.length = 2 ∧
      ∀ before t, before <+: trace → Run (Fires step) .init before t → KeepsServing t := by
  obtain ⟨trace, s, hrun, hp⟩ := exists_run_of_replay step .init
    (twoConnect ++ [(.client 1, .read (.msg (.message "hi"))),
      (.client 1, .lock [("a", 0), ("b", 1)]), (.client 1, .wrote true), (.client 1, .finish)])
    (fun r => decide (r.2.sent.length = 2 ∧ ∀ x ∈ r.1, ¬ Disturbs x.1 x.2)) (by decide +kernel)
  obtain ⟨hsent, hclean⟩ := of_decide_eq_true hp
  exact ⟨trace, s, hrun, hsent, (keeps_serving_iff hrun).mpr hclean⟩

/-- The socket of `b` breaks, `a` sends a message, and the next client to connect ends the
server. -/
theorem broken_client_poisons :
    ∃ trace s, Run (Fires step) .init trace s ∧
      s.poisoned = true ∧ s.phase .acceptLoop = .panicked := by
  obtain ⟨trace, s, hrun, hp⟩ := exists_run_of_replay step .init
    (twoConnect ++ [(.client 0, .read (.msg (.message "hi"))),
      (.client 0, .lock [("a", 0), ("b", 1)]), (.client 0, .wrote false),
      (.acceptLoop, .accept (some "c")), (.acceptLoop, .reap true)])
    (fun r => decide (r.2.poisoned = true ∧ r.2.phase .acceptLoop = .panicked)) (by decide +kernel)
  obtain ⟨hpoisoned, hpanicked⟩ := of_decide_eq_true hp
  exact ⟨trace, s, hrun, hpoisoned, hpanicked⟩

end RustCourse.NetworkChat.Stage02
