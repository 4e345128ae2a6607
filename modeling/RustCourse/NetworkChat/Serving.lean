import RustCourse.NetworkChat.Server

/-!
# The network chat server while nothing panics

Whatever happens, every party is in a phase of its own and at most one has the guard
(`WellFormed`).  The calls under the guard panic at a write that fails and at the two
assertions on the table.  `Serving` is what holds as long as there is no failing write and
nobody is let in under an address that is in the table: every thread has the entry of the
address it serves, so that the entry it removes is there.

## Strategy

`WellFormed` needs no assumption and is kept by every step.  `Serving` is kept by every step
that is no disturbance; the steps that change the table are `add_client` and `remove_client`,
and each of them needs to know that nobody else is in the middle of one, which is what the
guard is good for.
-/

namespace RustCourse.NetworkChat.Stage02

open Transition

variable {s s' t : Server} {p q : Party} {action : Action}

/-! ## Phases and parties -/

namespace Phase

/-- The accept loop is in such a phase; `spawned` is the number of the next thread. -/
def OfLoop (spawned : ℕ) : Phase → Prop
  | accepting | reaping _ _ _ | ended | panicked => True
  | spawning _ n | locking (.addClient _ n) | sending (.addClient _ n) _ => n = spawned
  | _ => False

/-- The thread of a client is in such a phase. -/
def OfClient : Phase → Prop
  | reading _ | ended | panicked => True
  | locking (.removeClient _) | locking (.broadcast _ _) => True
  | sending (.removeClient _) _ | sending (.broadcast _ _) _ => True
  | _ => False

def Of (spawned : ℕ) : Party → Phase → Prop
  | .acceptLoop, phase => phase.OfLoop spawned
  | .client n, phase => phase.OfClient ∧ n < spawned ∨ phase = absent ∧ spawned ≤ n

variable {spawned : ℕ} {phase : Phase} {call : Call} {rest rest' : List (SocketAddr × ℕ)}

theorem Of.acceptLoop (h : phase.Of spawned p) (hclient : ¬ phase.OfClient)
    (hthere : phase ≠ absent) : p = .acceptLoop ∧ phase.OfLoop spawned := by
  cases p with
  | acceptLoop => exact ⟨rfl, h⟩
  | client n =>
      rcases h with h | h
      · exact absurd h.1 hclient
      · exact absurd h.1 hthere

theorem Of.client (h : phase.Of spawned p) (hloop : ¬ phase.OfLoop spawned)
    (hthere : phase ≠ absent) : ∃ n, p = .client n ∧ n < spawned := by
  cases p with
  | acceptLoop => exact absurd h hloop
  | client n =>
      rcases h with h | h
      · exact ⟨n, rfl, h.2⟩
      · exact absurd h.1 hthere

theorem Of.panicked (h : phase.Of spawned p) (hthere : phase ≠ absent) :
    Phase.panicked.Of spawned p := by
  cases p with
  | acceptLoop => exact trivial
  | client n =>
      rcases h with h | h
      · exact .inl ⟨trivial, h.2⟩
      · exact absurd h.1 hthere

theorem Of.locked (h : (locking call).Of spawned p) : (sending call rest).Of spawned p := by
  cases p with
  | acceptLoop => cases call <;> exact h
  | client n =>
      rcases h with h | h
      · refine .inl ⟨?_, h.2⟩
        cases call <;> exact h.1
      · exact nomatch h.1

theorem Of.sent (h : (sending call rest).Of spawned p) : (sending call rest').Of spawned p := by
  cases p with
  | acceptLoop => cases call <;> exact h
  | client n =>
      rcases h with h | h
      · refine .inl ⟨?_, h.2⟩
        cases call <;> exact h.1
      · exact nomatch h.1

end Phase

/-- Every party is in a phase of its own, and at most one has the guard. -/
structure WellFormed (s : Server) : Prop where
  placed : ∀ p, (s.phase p).Of s.spawned p
  held : Held Phase.holds s.holder s.phase

theorem wellFormed_init : WellFormed .init := by
  refine ⟨fun p => ?_, fun p => ?_⟩
  · cases p with
    | acceptLoop => exact trivial
    | client n => exact .inr ⟨rfl, Nat.zero_le _⟩
  · refine iff_of_false nofun ?_
    cases p with
    | acceptLoop => exact id
    | client n => exact id

/-- A party goes on to a phase of its own. -/
theorem WellFormed.move (h : WellFormed s) {phase : Phase} (hphase : phase.Of s.spawned p)
    {clients : HashMap SocketAddr ℕ} {holder : Option Party} {poisoned : Bool} {handles : List ℕ}
    {sent : List (ℕ × ServerToClientMsg)}
    (hheld : Held Phase.holds holder (Function.update s.phase p phase)) :
    WellFormed ⟨clients, holder, poisoned, Function.update s.phase p phase, handles, s.spawned,
      sent⟩ := by
  refine ⟨fun q => ?_, hheld⟩
  show (Function.update s.phase p phase q).Of s.spawned q
  by_cases hq : q = p
  · subst hq
    rwa [Function.update_self]
  · rw [Function.update_of_ne hq]
    exact h.placed q

/-- A party goes on that does not have the guard, before or then. -/
theorem WellFormed.idle (h : WellFormed s) {before phase : Phase} (hbefore : s.phase p = before)
    (hidle : ¬ before.holds) (hphase : phase.Of s.spawned p) (hidle' : ¬ phase.holds)
    {clients : HashMap SocketAddr ℕ} {poisoned : Bool} {handles : List ℕ}
    {sent : List (ℕ × ServerToClientMsg)} :
    WellFormed ⟨clients, s.holder, poisoned, Function.update s.phase p phase, handles, s.spawned,
      sent⟩ :=
  h.move hphase (h.held.update (iff_of_false hidle' (hbefore ▸ hidle)))

/-- A party drops the guard. -/
theorem WellFormed.drop (h : WellFormed s) {call : Call} {rest : List (SocketAddr × ℕ)}
    {phase : Phase} (hbefore : s.phase p = .sending call rest) (hphase : phase.Of s.spawned p)
    (hidle : ¬ phase.holds) {clients : HashMap SocketAddr ℕ} {poisoned : Bool} {handles : List ℕ}
    {sent : List (ℕ × ServerToClientMsg)} :
    WellFormed ⟨clients, none, poisoned, Function.update s.phase p phase, handles, s.spawned,
      sent⟩ :=
  h.move hphase (h.held.release (by rw [hbefore]; exact trivial) hidle)

theorem WellFormed.absent_spawned (h : WellFormed s) : s.phase (.client s.spawned) = .absent := by
  rcases h.placed (.client s.spawned) with hclient | hclient
  · exact absurd hclient.2 (Nat.lt_irrefl _)
  · exact hclient.1

theorem WellFormed.ofClient (h : WellFormed s) {phase : Phase} {n : ℕ}
    (hphase : s.phase (.client n) = phase) (hthere : phase ≠ .absent) : phase.OfClient := by
  rcases h.placed (.client n) with hclient | habsent
  · exact hphase ▸ hclient.1
  · exact absurd (hphase.symm.trans habsent.1) hthere

theorem WellFormed.spawn (h : WellFormed s) {address : SocketAddr}
    (hphase : s.phase .acceptLoop = .spawning address s.spawned) {handles : List ℕ} :
    WellFormed { (s.setPhase .acceptLoop .accepting).setPhase (.client s.spawned)
      (.reading address) with handles := handles, spawned := s.spawned + 1 } := by
  refine ⟨fun q => ?_, ?_⟩
  · show Phase.Of (s.spawned + 1) q
      (Function.update (Function.update s.phase .acceptLoop .accepting) (.client s.spawned)
        (.reading address) q)
    cases q with
    | acceptLoop =>
        rw [Function.update_of_ne (by simp), Function.update_self]
        exact trivial
    | client n =>
        by_cases hn : n = s.spawned
        · subst hn
          rw [Function.update_self]
          exact .inl ⟨trivial, Nat.lt_succ_self _⟩
        · rw [Function.update_of_ne (by simpa using hn), Function.update_of_ne (by simp)]
          rcases h.placed (.client n) with ⟨hclient, hlt⟩ | ⟨hclient, hle⟩
          · exact .inl ⟨hclient, Nat.lt_succ_of_lt hlt⟩
          · exact .inr ⟨hclient, Nat.lt_of_le_of_ne hle (Ne.symm hn)⟩
  · refine (h.held.update ?_).update ?_
    · rw [hphase]
      exact Iff.rfl
    · rw [Function.update_of_ne (by simp), h.absent_spawned]
      exact Iff.rfl

theorem WellFormed.finish (h : WellFormed s) {call : Call} {rest : List (SocketAddr × ℕ)}
    (hphase : s.phase p = .sending call rest) : WellFormed (s.finish p call) := by
  have hp := h.placed p
  rw [hphase] at hp
  have hpanicked := hp.panicked nofun
  cases call with
  | addClient address socket =>
      by_cases hmem : address ∈ s.clients
      · rw [Server.finish_addClient_again hmem]
        exact h.drop hphase hpanicked id
      · obtain ⟨rfl, hnumber⟩ := hp.acceptLoop id nofun
        have hspawning : (Phase.spawning address socket).Of s.spawned .acceptLoop := hnumber
        rw [Server.finish_addClient hmem]
        exact h.drop hphase hspawning id
  | removeClient address =>
      obtain ⟨n, rfl, hn⟩ := hp.client id nofun
      by_cases hmem : address ∈ s.clients
      · have hended : Phase.ended.Of s.spawned (.client n) := .inl ⟨trivial, hn⟩
        rw [Server.finish_removeClient hmem]
        exact h.drop hphase hended id
      · rw [Server.finish_removeClient_again hmem]
        exact h.drop hphase hpanicked id
  | broadcast source message =>
      obtain ⟨n, rfl, hn⟩ := hp.client id nofun
      have hreading : (Phase.reading source).Of s.spawned (.client n) := .inl ⟨trivial, hn⟩
      exact h.drop hphase hreading id

theorem WellFormed.step (h : WellFormed s) (hmoved : Moved s p action s') : WellFormed s' := by
  have hp := h.placed p
  -- each case keeps the threads where they belong; `locked` takes the guard, two give it back
  cases hmoved with
  | acceptFailed hphase | accepted hphase | joined hphase | joinPanicked hphase | kept hphase
  | full hphase =>
      rw [hphase] at hp
      obtain ⟨rfl, -⟩ := hp.acceptLoop id nofun
      refine h.idle hphase id ?_ id
      exact trivial
  | admitted hphase =>
      rw [hphase] at hp
      obtain ⟨rfl, -⟩ := hp.acceptLoop id nofun
      refine h.idle hphase id ?_ id
      exact rfl
  | spawned hphase =>
      rw [hphase] at hp
      obtain ⟨rfl, rfl⟩ := hp.acceptLoop id nofun
      exact h.spawn hphase
  | received hphase | closed hphase =>
      rw [hphase] at hp
      obtain ⟨n, rfl, hn⟩ := hp.client id nofun
      refine h.idle hphase id ?_ id
      exact .inl ⟨trivial, hn⟩
  | unread => exact h
  | lockPanicked hphase =>
      rw [hphase] at hp
      exact h.idle hphase id (hp.panicked nofun) id
  | locked hphase hfree =>
      rw [hphase] at hp
      exact h.move hp.locked (Held.acquire (hfree ▸ h.held) trivial)
  | wrote hphase =>
      rw [hphase] at hp
      exact h.move hp.sent (h.held.update (by rw [hphase]; exact Iff.rfl))
  | writeFailed hphase =>
      rw [hphase] at hp
      exact h.drop hphase (hp.panicked nofun) id
  | finished hphase => exact h.finish hphase

/-! ## Serving -/

/-- The address a thread serves. -/
def Phase.address : Phase → Option SocketAddr
  | reading address => some address
  | locking call | sending call _ => some call.source
  | _ => none

/-- Thread `n` serves the address, or is about to be spawned for it. -/
def Serves (phase : Party → Phase) (n : ℕ) (address : SocketAddr) : Prop :=
  (phase (.client n)).address = some address ∨ phase .acceptLoop = .spawning address n

/-- Nothing has panicked, and the table lists the threads that serve an address. -/
structure Serving (s : Server) : Prop extends WellFormed s where
  registered : ∀ address n, s.clients.lookup address = some n ↔ Serves s.phase n address
  fresh : ∀ address n rest, s.phase .acceptLoop = .sending (.addClient address n) rest →
    address ∉ s.clients
  unpoisoned : s.poisoned = false
  running : ∀ p, s.phase p ≠ .panicked

/-- What the calls under the guard do not expect: a write that fails, and a client whose address
is in the table when `add_client` gets the guard. -/
inductive Disturbs (s : Server) : Label → Prop
  | write {party} : Disturbs s (party, .wrote false)
  | address {party order address n} : s.phase party = .locking (.addClient address n) →
      address ∈ s.clients → Disturbs s (party, .lock order)

/-- The address it is about to add. -/
def Phase.adding : Phase → Option SocketAddr
  | locking (.addClient address _) => some address
  | _ => none

theorem Phase.mem_adding {phase : Phase} {address : SocketAddr} :
    address ∈ phase.adding ↔ ∃ n, phase = .locking (.addClient address n) := by
  constructor
  · intro h
    unfold Phase.adding at h
    split at h
    · cases h
      exact ⟨_, rfl⟩
    · exact nomatch h
  · rintro ⟨n, rfl⟩
    rfl

theorem disturbs_lock_iff {order : List (SocketAddr × ℕ)} :
    Disturbs s (p, .lock order) ↔ ∃ address ∈ (s.phase p).adding, address ∈ s.clients := by
  constructor
  · rintro (_ | ⟨hphase, hmem⟩)
    exact ⟨_, Phase.mem_adding.mpr ⟨_, hphase⟩, hmem⟩
  · rintro ⟨address, hadding, hmem⟩
    obtain ⟨n, hphase⟩ := Phase.mem_adding.mp hadding
    exact .address hphase hmem

instance : (l : Label) → Decidable (Disturbs s l)
  | (_, .wrote false) => isTrue .write
  | (_, .lock _) => decidable_of_iff _ disturbs_lock_iff.symm
  | (_, .wrote true) | (_, .accept _) | (_, .reap _) | (_, .count) | (_, .spawn) | (_, .read _)
  | (_, .finish) => isFalse nofun

section Phases

variable {phase : Party → Phase} {next : Phase} {n m : ℕ} {address : SocketAddr}

/-- A thread goes on to serve its address. -/
theorem serves_client (haddress : next.address = (phase (.client n)).address) :
    Serves phase m address ↔ Serves (Function.update phase (.client n) next) m address := by
  refine or_congr ?_ ?_
  · by_cases hm : m = n
    · subst hm
      rw [Function.update_self, haddress]
    · rw [Function.update_of_ne (by simpa using hm)]
  · rw [Function.update_of_ne (by simp)]

/-- The accept loop goes on, not from or to a thread that it spawns. -/
theorem serves_acceptLoop (hbefore : ∀ a k, phase .acceptLoop ≠ .spawning a k)
    (hthen : ∀ a k, next ≠ .spawning a k) :
    Serves phase m address ↔ Serves (Function.update phase .acceptLoop next) m address := by
  refine or_congr ?_ ?_
  · rw [Function.update_of_ne (by simp)]
  · rw [Function.update_self]
    exact iff_of_false (hbefore address m) (hthen address m)

/-- A thread leaves, which the other addresses do not notice. -/
theorem serves_other {left : SocketAddr} (hbefore : (phase (.client n)).address = some left)
    (hnext : next.address = none) (hother : address ≠ left) :
    Serves phase m address ↔ Serves (Function.update phase (.client n) next) m address := by
  refine or_congr ?_ ?_
  · by_cases hm : m = n
    · subst hm
      rw [Function.update_self, hbefore, hnext]
      simp [Ne.symm hother]
    · rw [Function.update_of_ne (by simpa using hm)]
  · rw [Function.update_of_ne (by simp)]

/-- Then nobody serves its address. -/
theorem not_serves_left (honly : ∀ k, Serves phase k address → k = n)
    (hloop : ∀ k, phase .acceptLoop ≠ .spawning address k) (hnext : next.address = none) :
    ¬ Serves (Function.update phase (.client n) next) m address := by
  rintro (hclient | hspawning)
  · by_cases hm : m = n
    · subst hm
      rw [Function.update_self, hnext] at hclient
      exact nomatch hclient
    · rw [Function.update_of_ne (by simpa using hm)] at hclient
      exact hm (honly m (.inl hclient))
  · rw [Function.update_of_ne (by simp)] at hspawning
    exact hloop m hspawning

theorem running_update (h : ∀ q, phase q ≠ .panicked) (hnext : next ≠ .panicked) (q : Party) :
    Function.update phase p next q ≠ .panicked := by
  by_cases hq : q = p
  · subst hq
    rwa [Function.update_self]
  · rw [Function.update_of_ne hq]
    exact h q

end Phases

theorem serving_init : Serving .init where
  toWellFormed := wellFormed_init
  registered address n := by
    refine iff_of_false ?_ ?_
    · show Finmap.lookup address (∅ : HashMap SocketAddr ℕ) ≠ some n
      simp
    · rintro (hclient | hloop)
      · exact nomatch hclient
      · exact nomatch hloop
  fresh _ _ _ := nofun
  unpoisoned := rfl
  running p := by
    cases p with
    | acceptLoop => exact nofun
    | client n => exact nofun

section Frame

variable {holder : Option Party} {handles : List ℕ} {sent : List (ℕ × ServerToClientMsg)}
  {before phase : Phase} {n : ℕ} {address : SocketAddr}

/-- A thread moves that leaves the table alone. -/
theorem Serving.client (h : Serving s) (hbefore : s.phase (.client n) = before)
    (haddress : phase.address = before.address) (hphase : phase ≠ .panicked)
    (hformed : WellFormed ⟨s.clients, holder, s.poisoned, Function.update s.phase (.client n) phase,
      handles, s.spawned, sent⟩) :
    Serving ⟨s.clients, holder, s.poisoned, Function.update s.phase (.client n) phase, handles,
      s.spawned, sent⟩ where
  toWellFormed := hformed
  registered a m := (h.registered a m).trans (serves_client (hbefore ▸ haddress))
  fresh a m rest hloop := by
    have hloop : Function.update s.phase (.client n) phase .acceptLoop = _ := hloop
    rw [Function.update_of_ne (by simp)] at hloop
    exact h.fresh a m rest hloop
  unpoisoned := h.unpoisoned
  running := running_update h.running hphase

/-- The accept loop moves and leaves the table alone. -/
theorem Serving.acceptLoop (h : Serving s) (hbefore : s.phase .acceptLoop = before)
    (hspawned : ∀ a m, before ≠ .spawning a m) (hthen : ∀ a m, phase ≠ .spawning a m)
    (hfresh : ∀ a m rest, phase = .sending (.addClient a m) rest → a ∉ s.clients)
    (hphase : phase ≠ .panicked)
    (hformed : WellFormed ⟨s.clients, holder, s.poisoned, Function.update s.phase .acceptLoop phase,
      handles, s.spawned, sent⟩) :
    Serving ⟨s.clients, holder, s.poisoned, Function.update s.phase .acceptLoop phase, handles,
      s.spawned, sent⟩ where
  toWellFormed := hformed
  registered a m := (h.registered a m).trans (serves_acceptLoop (hbefore ▸ hspawned) hthen)
  fresh a m rest hloop := by
    have hloop : Function.update s.phase .acceptLoop phase .acceptLoop = _ := hloop
    rw [Function.update_self] at hloop
    exact hfresh a m rest hloop
  unpoisoned := h.unpoisoned
  running := running_update h.running hphase

end Frame

/-! ## Steps that change the table -/

theorem Serving.spawn (h : Serving s) {address : SocketAddr} {handles : List ℕ}
    (hphase : s.phase .acceptLoop = .spawning address s.spawned) :
    Serving { (s.setPhase .acceptLoop .accepting).setPhase (.client s.spawned)
      (.reading address) with handles := handles, spawned := s.spawned + 1 } where
  toWellFormed := h.toWellFormed.spawn hphase
  registered a m := by
    refine (h.registered a m).trans ?_
    unfold Serves
    simp only [Server.setPhase_phase, hphase]
    rw [Function.update_of_ne (by simp : Party.acceptLoop ≠ .client s.spawned),
      Function.update_self]
    by_cases hm : m = s.spawned
    · subst hm
      rw [Function.update_self, h.absent_spawned]
      simp [Phase.address]
    · rw [Function.update_of_ne (by simpa using hm), Function.update_of_ne (by simp)]
      simp [Ne.symm hm]
  fresh a m rest hloop := by
    simp only [Server.setPhase_phase] at hloop
    rw [Function.update_of_ne (by simp), Function.update_self] at hloop
    exact nomatch hloop
  unpoisoned := h.unpoisoned
  running := running_update (running_update h.running nofun) nofun

/-- A client is added that is new. -/
theorem Serving.add (h : Serving s) {address : SocketAddr} {n : ℕ}
    (hphase : s.phase .acceptLoop = .sending (.addClient address n) []) :
    Serving (s.finish .acceptLoop (.addClient address n)) := by
  have hnew := h.fresh address n [] hphase
  have hformed := h.toWellFormed.finish hphase
  rw [Server.finish_addClient hnew] at hformed ⊢
  refine ⟨hformed, fun a m => ?_, fun a m rest hloop => ?_, h.unpoisoned,
    running_update h.running nofun⟩
  · have hbefore := h.registered a m
    unfold Serves at hbefore ⊢
    simp only [Server.setPhase_phase, hphase, reduceCtorEq, or_false] at hbefore ⊢
    rw [Function.update_self, Function.update_of_ne (by simp)]
    by_cases ha : a = address
    · subst ha
      have hnobody : (s.phase (.client m)).address ≠ some a := by
        intro hserves
        exact hnew (Finmap.mem_of_lookup_eq_some (hbefore.mpr hserves))
      rw [Finmap.lookup_insert]
      simp [hnobody]
    · rw [Finmap.lookup_insert_of_ne _ ha, hbefore]
      simp [Ne.symm ha]
  · simp only [Server.setPhase_phase] at hloop
    rw [Function.update_self] at hloop
    exact nomatch hloop

/-- A client is removed by its own thread. -/
theorem Serving.remove (h : Serving s) {address : SocketAddr} {n : ℕ}
    (hphase : s.phase (.client n) = .sending (.removeClient address) []) :
    address ∈ s.clients ∧ Serving (s.finish (.client n) (.removeClient address)) := by
  have haddress : (s.phase (.client n)).address = some address := by
    rw [hphase]
    rfl
  have hlookup : s.clients.lookup address = some n := (h.registered address n).mpr (.inl haddress)
  have honly : ∀ k, Serves s.phase k address → k = n := fun k hserves =>
    Option.some.inj (((h.registered address k).mpr hserves).symm.trans hlookup)
  have hloop : ∀ k, s.phase .acceptLoop ≠ .spawning address k := by
    intro k hspawning
    have hplaced := h.placed .acceptLoop
    rw [hspawning] at hplaced
    have hk : k = s.spawned := hplaced
    have habsent := h.absent_spawned
    rw [← hk, honly k (.inr hspawning), hphase] at habsent
    exact nomatch habsent
  have hmem := Finmap.mem_of_lookup_eq_some hlookup
  have hformed := h.toWellFormed.finish hphase
  refine ⟨hmem, ?_⟩
  rw [Server.finish_removeClient hmem] at hformed ⊢
  refine ⟨hformed, fun a m => ?_, fun a m rest hsending => ?_, h.unpoisoned,
    running_update h.running nofun⟩
  -- the entry that goes is the one of the thread that ends
  · by_cases ha : a = address
    · subst ha
      exact iff_of_false (by simp) (not_serves_left honly hloop rfl)
    · have hlookup' : Finmap.lookup a (s.clients.erase address) = s.clients.lookup a :=
        Finmap.lookup_erase_ne ha
      rw [hlookup']
      exact (h.registered a m).trans (serves_other haddress rfl ha)
  · -- it is the thread that has the guard
    have hsending : Function.update s.phase (.client n) .ended .acceptLoop = _ := hsending
    rw [Function.update_of_ne (by simp)] at hsending
    have hsame := h.held.unique (p := .acceptLoop) (q := .client n)
      (by rw [hsending]; exact trivial) (by rw [hphase]; exact trivial)
    exact nomatch hsame

/-- **The step lemma.** -/
theorem Serving.step (h : Serving s) (hmoved : Moved s p action s')
    (hclean : ¬ Disturbs s (p, action)) : Serving s' := by
  have hformed := h.toWellFormed.step hmoved
  have hp := h.placed p
  -- the disturbing steps are excluded, the others keep the two tables in step
  cases hmoved with
  | acceptFailed hphase | accepted hphase | joined hphase | kept hphase | full hphase
  | admitted hphase =>
      rw [hphase] at hp
      obtain ⟨rfl, -⟩ := hp.acceptLoop id nofun
      exact h.acceptLoop hphase nofun nofun nofun nofun hformed
  | joinPanicked _ hpanicked => exact absurd hpanicked (h.running _)
  | spawned hphase =>
      rw [hphase] at hp
      obtain ⟨rfl, rfl⟩ := hp.acceptLoop id nofun
      exact h.spawn hphase
  | received hphase | closed hphase =>
      rw [hphase] at hp
      obtain ⟨n, rfl, -⟩ := hp.client id nofun
      exact h.client hphase rfl nofun hformed
  | unread => exact h
  | lockPanicked _ _ hpoisoned => exact nomatch hpoisoned.symm.trans h.unpoisoned
  | @locked call order hphase hfree =>
      cases p with
      | acceptLoop =>
          refine h.acceptLoop hphase nofun nofun ?_ nofun hformed
          intro a m rest hsending hmem
          cases hsending
          exact hclean (.address hphase hmem)
      | client n =>
          exact h.client hphase rfl nofun hformed
  | @wrote call _ _ rest hphase =>
      cases p with
      | acceptLoop =>
          refine h.acceptLoop hphase nofun nofun ?_ nofun hformed
          intro a m rest hsending
          cases hsending
          exact h.fresh a m _ hphase
      | client n =>
          exact h.client hphase rfl nofun hformed
  | writeFailed => exact absurd .write hclean
  | @finished call hphase =>
      rw [hphase] at hp
      cases call with
      | addClient address n =>
          obtain ⟨rfl, -⟩ := hp.acceptLoop id nofun
          exact h.add hphase
      | removeClient address =>
          obtain ⟨n, rfl, -⟩ := hp.client id nofun
          exact (h.remove hphase).2
      | broadcast source message =>
          obtain ⟨n, rfl, -⟩ := hp.client id nofun
          exact h.client hphase rfl nofun hformed

end RustCourse.NetworkChat.Stage02
