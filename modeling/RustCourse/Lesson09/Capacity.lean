import RustCourse.Lesson09.Steps

/-!
# Whom lesson 09 rejects

A client that disconnects is marked, and removed after the batch, when
`cleanup_disconnected` runs.  `accept_and_setup_client` counts the entries of `clients`, so
the limit is never exceeded; but if the server was full, a connection that is accepted
later in the batch is rejected although one client is gone.  `rejection_iff` says that this
is the only way in which a connection is rejected without need.

## Strategy

The limit is an invariant of the number of entries, which a step changes by one at most
(`keys_of_stepped`).  Whether a rejection was needed is a question about the state before the
accept: how many entries of `clients` are not marked.  A rejected connection that is marked
later plays no part in this, since it was never in `clients`.
-/

namespace RustCourse.Lesson09

open Chat Transition

/-! ## What a rejection should mean -/

/-- The entries of `clients` with `connected == true`. -/
def Server.connected (s : Server) : Finset Fd :=
  s.clients.keys.filter fun fd => (s.clients.lookup fd).any Client.connected

/-- There are at most `max_clients` entries in `clients` in every state of the run, and a
connection gets into `rejected_clients` only if this many are connected. -/
structure RejectsIfFull (decode : List UInt8 → Option ClientToServerMsg) (maxClients : ℕ)
    (trace : List (Server × Label)) (s : Server) : Prop where
  visited : ∀ p ∈ trace, p.1.clients.keys.card ≤ maxClients
  reached : s.clients.keys.card ≤ maxClients
  rejects : ∀ p ∈ trace, ∀ fd s', p.2 = .accept (.client fd) →
    step decode maxClients p.1 p.2 = some s' → fd ∈ s'.rejectedClients →
    p.1.connected.card = maxClients

/-- The step accepts a connection while there are `max_clients` entries in `clients`, one of
which is marked as disconnected. -/
def Premature (maxClients : ℕ) (s : Server) (l : Label) : Prop :=
  (∃ fd, l = .accept (.client fd)) ∧ s.clients.keys.card = maxClients ∧
    ∃ fd ∈ s.clients.keys, (s.clients.lookup fd).any Client.connected = false

instance (maxClients : ℕ) (s : Server) (fd : Fd) :
    Decidable (Premature maxClients s (.accept (.client fd))) :=
  decidable_of_iff (s.clients.keys.card = maxClients ∧
      ∃ fd ∈ s.clients.keys, (s.clients.lookup fd).any Client.connected = false)
    ⟨fun h => ⟨⟨fd, rfl⟩, h⟩, fun h => h.2⟩

variable {decode : List UInt8 → Option ClientToServerMsg} {maxClients : ℕ} {s s' : Server}
  {l : Label} {trace : List (Server × Label)}

/-! ## The entries of `clients` -/

private theorem keys_setClient (fd : Fd) (client : Client) :
    (s.setClient fd client).clients.keys = insert fd s.clients.keys := by
  ext other
  simp [Server.setClient, Finmap.mem_keys, Finmap.mem_insert]

private theorem keys_setClient_of_lookup {fd : Fd} {client client' : Client}
    (h : s.clients.lookup fd = some client) :
    (s.setClient fd client').clients.keys = s.clients.keys := by
  have hmem : fd ∈ s.clients.keys := Finmap.mem_keys.mpr (Finmap.mem_of_lookup_eq_some h)
  rw [keys_setClient, Finset.insert_eq_of_mem hmem]

private theorem tryRecvMsg_keys {fd : Fd} {client client' : Client} {rest : List Event}
    (h : s.clients.lookup fd = some client) (got : Received ClientToServerMsg) :
    (tryRecvMsg s fd client' rest got).clients.keys = s.clients.keys := by
  cases got <;> exact keys_setClient_of_lookup h

/-- A step adds no entry to `clients`, or it accepts a connection and there is room. -/
theorem keys_of_stepped (h : Stepped decode maxClients s l s') :
    s'.clients.keys ⊆ s.clients.keys ∨
      ∃ fd, s'.clients.keys = insert fd s.clients.keys ∧ s.clients.keys.card < maxClients := by
  cases h with
  | arrived | hungUp | waited | turnedAway | aborted | dismissed | skipped =>
      exact .inl (Finset.Subset.refl _)
  | terminated | waitFailed | acceptFailed | dismissFailed | shutdownFailed =>
      exact .inl (by simp [Server.stop])
  | accepted _ _ hroom => exact .inr ⟨_, keys_setClient _ _, hroom⟩
  | @received _ fd _ _ _ _ socket _ hclient =>
      have hkept : (s.setSocket fd socket).clients.lookup fd = some _ := hclient
      exact .inl (tryRecvMsg_keys hkept _).subset
  | reacted _ hclient => exact .inl (keys_setClient_of_lookup hclient).subset
  | cleaned =>
      left
      intro fd hmem
      rw [Finmap.mem_keys, ← Finmap.lookup_isSome, HashMap.lookup_retain] at hmem
      rw [Finmap.mem_keys, ← Finmap.lookup_isSome]
      exact Option.isSome_of_isSome_filter _ _ hmem

/-- **The limit is kept.** -/
theorem clients_le_of_run (hrun : Run (Fires (step decode maxClients)) Server.init trace s) :
    s.clients.keys.card ≤ maxClients := by
  refine hrun.invariant (I := fun s => s.clients.keys.card ≤ maxClients) (Nat.zero_le _) ?_
  intro s l s' h hstep
  rcases keys_of_stepped (stepped_of_step hstep) with hfewer | ⟨fd, hkeys, hroom⟩
  · exact (Finset.card_le_card hfewer).trans h
  · calc s'.clients.keys.card
        ≤ s.clients.keys.card + 1 := hkeys ▸ Finset.card_insert_le _ _
      _ ≤ maxClients := hroom

/-! ## Who is rejected -/

theorem connected_card_eq_iff :
    s.connected.card = s.clients.keys.card ↔
      ∀ fd ∈ s.clients.keys, (s.clients.lookup fd).any Client.connected = true :=
  Finset.card_filter_eq_iff

/-- **Admission.**  A connection is rejected only if `max_clients` entries are connected,
unless one of as many is marked as disconnected. -/
theorem rejects_iff (hbounded : s.clients.keys.card ≤ maxClients) {fd : Fd}
    (hstep : step decode maxClients s (.accept (.client fd)) = some s') :
    (fd ∈ s'.rejectedClients → s.connected.card = maxClients) ↔
      ¬ Premature maxClients s (.accept (.client fd)) := by
  cases stepped_of_step hstep with
  | accepted _ hfree hroom =>
      have hserved : ¬ Premature maxClients s (.accept (.client fd)) :=
        fun hpremature => hroom.ne hpremature.2.1
      have hother : fd ∉ s.rejectedClients := fun hmem => hfree (.inr (.inl hmem))
      exact iff_of_true (fun hmem => absurd hmem hother) hserved
  | turnedAway _ _ hfull =>
      have hcard : s.clients.keys.card = maxClients := hbounded.antisymm hfull
      have hrejected : fd ∈ s.rejectedClients.insert fd .new := by simp
      calc (fd ∈ s.rejectedClients.insert fd .new → s.connected.card = maxClients)
          ↔ s.connected.card = s.clients.keys.card := by simp [hcard]
        _ ↔ ∀ fd ∈ s.clients.keys, (s.clients.lookup fd).any Client.connected = true :=
            connected_card_eq_iff
        _ ↔ ¬ Premature maxClients s (.accept (.client fd)) := by simp [Premature, hcard]

private theorem not_rejectsIfFull (hrun : Run (Fires (step decode maxClients)) Server.init trace s)
    {p : Server × Label} (hp : p ∈ trace) (hpremature : Premature maxClients p.1 p.2) :
    ¬ RejectsIfFull decode maxClients trace s := by
  intro h
  obtain ⟨q, l⟩ := p
  obtain ⟨fd, rfl⟩ := hpremature.1
  obtain ⟨before, s', -, hbefore, hstep⟩ := hrun.exists_before hp
  exact (rejects_iff (clients_le_of_run hbefore) hstep).mp (h.rejects _ hp fd s' rfl hstep)
    hpremature

/-! ## Every run -/

/-- **When nobody is rejected without need.**  In a run, there are at most `max_clients`
entries in `clients` at any time and a connection is rejected only if this many are
connected, if and only if no connection is accepted while `clients` has `max_clients`
entries and one of them is marked as disconnected. -/
theorem rejection_iff (hrun : Run (Fires (step decode maxClients)) Server.init trace s) :
    RejectsIfFull decode maxClients trace s ↔ ∀ p ∈ trace, ¬ Premature maxClients p.1 p.2 := by
  constructor
  · intro h p hp hpremature
    exact not_rejectsIfFull hrun hp hpremature h
  · intro h
    refine ⟨fun p hp => ?_, clients_le_of_run hrun, ?_⟩
    · obtain ⟨before, -, -, hbefore, -⟩ := hrun.exists_before hp
      exact clients_le_of_run hbefore
    · rintro ⟨q, l⟩ hp fd s' rfl hstep
      obtain ⟨before, -, -, hbefore, -⟩ := hrun.exists_before hp
      exact (rejects_iff (clients_le_of_run hbefore) hstep).mpr (h _ hp)

/-- One client fits, the next one is rejected. -/
theorem rejection_iff_full :
    ∃ trace s, Run (Fires (step decodeLine 1)) Server.init trace s ∧ 1 ∈ s.rejectedClients ∧
      RejectsIfFull decodeLine 1 trace s := by
  obtain ⟨trace, s, hrun, hp⟩ := exists_run_of_replay (step decodeLine 1) Server.init
    (connects 0 [] ++ [.wait (some [.listener]), .accept (.client 1)])
    (fun r => decide (1 ∈ r.2.rejectedClients ∧
      ∀ p ∈ r.1, ∀ fd ∈ p.1.clients.keys, (p.1.clients.lookup fd).any Client.connected = true))
    (by decide +kernel)
  obtain ⟨hrejected, hconnected⟩ : 1 ∈ s.rejectedClients ∧
      ∀ p ∈ trace, ∀ fd ∈ p.1.clients.keys, (p.1.clients.lookup fd).any Client.connected = true :=
    of_decide_eq_true hp
  refine ⟨trace, s, hrun, hrejected, (rejection_iff hrun).mpr ?_⟩
  rintro p hp ⟨-, -, fd, hfd, hleft⟩
  rw [hconnected p hp fd hfd] at hleft
  cases hleft

/-- The only client hangs up, and a connection that is accepted in the same batch is
rejected. -/
theorem departed_client_counts :
    ∃ trace s, Run (Fires (step decodeLine 1)) Server.init trace s ∧ 1 ∈ s.rejectedClients ∧
      s.connected = ∅ ∧ ¬ RejectsIfFull decodeLine 1 trace s := by
  obtain ⟨trace, s, hrun, hp⟩ := exists_run_of_replay (step decodeLine 1) Server.init
    (connects 0 [] ++ [.hangUp 0, .wait (some [.socket 0, .listener]), .tryRecvMsg [.nothing],
      .accept (.client 1)])
    (fun r => decide (1 ∈ r.2.rejectedClients ∧ r.2.connected = ∅ ∧
      ∃ p ∈ r.1, p.2 = .accept (.client 1) ∧ Premature 1 p.1 (.accept (.client 1))))
    (by decide +kernel)
  obtain ⟨hrejected, hnobody, p, hp, haccept, hpremature⟩ : 1 ∈ s.rejectedClients ∧
      s.connected = ∅ ∧
      ∃ p ∈ trace, p.2 = .accept (.client 1) ∧ Premature 1 p.1 (.accept (.client 1)) :=
    of_decide_eq_true hp
  exact ⟨trace, s, hrun, hrejected, hnobody, not_rejectsIfFull hrun hp (haccept ▸ hpremature)⟩

end RustCourse.Lesson09
