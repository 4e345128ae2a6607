import Mathlib.Data.Set.Finite.Lattice
import RustCourse.Lib.WaitGraph
import RustCourse.Lesson08.Steps

/-!
# Which handlers wait for each other

A handler that waits for the table holds nothing.  A handler that waits for a writer
holds the table for reading, and, if it carries out a DM, the writer of its own client.
So handlers can only wait for each other in a circle of DMs, each of which holds the
writer of its sender and waits for that of its recipient.

`Awaits` is the graph of these waits, on usernames.  An edge appears when a handler takes
its own writer for a DM, and in no other step: this is `Steady`, a property of the plans
that `handleJoined` makes.  As long as no such step closes a circle (`Uncrossed`) the
graph is acyclic, so nobody is deadlocked, and while the server is not being dropped a
handler that waits for a lock implies one that can go on.
-/

namespace RustCourse.Lesson08

open Chat Transition WaitGraph Relation

namespace Phase

/-- It waits for a read guard of the table. -/
def wantsRead : Phase → Bool
  | .checking _ => true
  | .requesting _ _ => true
  | _ => false

/-- It waits for the writer of this entry. -/
def wantsWriter : Phase → Option String
  | .serving _ _ (.lock other :: _) _ => some other
  | _ => none

/-- It waits for a lock. -/
def waits (phase : Phase) : Bool :=
  phase.wantsRead || phase.wantsWrite || phase.wantsWriter.isSome

end Phase

/-! ## Waiting -/

/-- Handler `t` waits for a lock that handler `u` holds.  Whether a waiting writer keeps
new readers out of an `RwLock` is up to the platform, so a reader may also be kept
waiting by the other readers. -/
inductive BlockedBy (s : Server) (t u : ThreadId) : Prop
  | read : (s.phase t).wantsRead = true → (s.phase u).writes = true → BlockedBy s t u
  | queued {w} : (s.phase t).wantsRead = true → (s.phase w).wantsWrite = true →
      (s.phase u).reads = true → BlockedBy s t u
  | write : (s.phase t).wantsWrite = true →
      (s.phase u).reads = true ∨ (s.phase u).writes = true → BlockedBy s t u
  | writer {name} : (s.phase t).wantsWriter = some name → name ∈ (s.phase u).held →
      BlockedBy s t u

/-- Every one of these handlers waits for a lock held by another of them. -/
def Deadlocked (s : Server) (handlers : Set ThreadId) : Prop :=
  handlers.Nonempty ∧ ∀ t ∈ handlers, ∃ u ∈ handlers, u ≠ t ∧ BlockedBy s t u

/-- Some handler holds the writer of `own` and waits for that of `other`. -/
def Awaits (s : Server) (own other : String) : Prop :=
  ∃ t, own ∈ (s.phase t).held ∧ (s.phase t).wantsWriter = some other

/-- The step is not one in which a handler takes its own writer for a DM although the
recipient's writer is held by a handler that waits, directly or through other DMs, for
it. -/
def Uncrossed (s : Server) (l : Label) : Prop :=
  ∀ t order name held own other rest bail, l = .handler t (.acquire order) →
    s.phase t = .serving name held (.lock own :: .lock other :: rest) bail →
    ¬ ReflTransGen (Awaits s) other own

/-! ## Plans -/

/-- The writer that the acts take next. -/
def nextLock : List Act → Option String
  | .lock other :: _ => some other
  | _ => none

/-- Acts that take a writer while another is held only right after taking that one, and
that release everything. -/
def Steady : List String → List Act → Prop
  | held, [] => held = []
  | held, .lock other :: rest =>
      other ∉ held ∧ (nextLock rest ≠ none → held = []) ∧ Steady (other :: held) rest
  | held, .write _ _ :: rest => (nextLock rest ≠ none → held = []) ∧ Steady held rest
  | held, .unlock other :: rest =>
      (nextLock rest ≠ none → held.erase other = []) ∧ Steady (held.erase other) rest

theorem steady_reply (clients : HashMap String ThreadId) (name : String) (msg : ServerToClientMsg) :
    Steady [] (reply clients name msg) := by
  unfold reply
  split <;> simp [Steady, nextLock]

theorem steady_broadcast (items : List (String × ThreadId)) (msg : ServerToClientMsg) :
    Steady [] (items.flatMap fun item => [.lock item.1, .write item.2 msg, .unlock item.1]) := by
  induction items with
  | nil => rfl
  | cons item rest ih => simpa [Steady, nextLock] using ih

theorem steady_handleJoined (clients : HashMap String ThreadId) (order : List (String × ThreadId))
    (name : String) (msg : ClientToServerMsg) :
    Steady [] (handleJoined clients order name msg).acts := by
  cases msg with
  | join | ping | listUsers => exact steady_reply _ _ _
  | broadcast message => exact steady_broadcast _ _
  | sendDM recipient message =>
      simp only [handleJoined]
      split
      · rfl
      · split
        · simp [Steady, nextLock]
        · next hne =>
            split
            · simp [Steady, nextLock, hne]
            · simp [Steady, nextLock]

/-! ## The invariants -/

/-- The acts of every handler that carries out a request are steady. -/
def AllSteady (s : Server) : Prop :=
  ∀ t name held acts bail, s.phase t = .serving name held acts bail → Steady held acts

variable {s s' : Server} {t u : ThreadId} {action : Action} {own other : String}

theorem Moved.steady (h : Moved s t action s') (hsteady : AllSteady s) : AllSteady s' := by
  -- a plan is steady when it is made, and so is what is left of it
  intro u name held acts bail hphase'
  by_cases hut : u = t
  · subst hut
    cases h with
    | @joined got hphase =>
        simp only [Server.setPhase_phase, if_true] at hphase'
        unfold joinClient at hphase'
        split at hphase' <;> cases hphase'
    | @received other got hphase =>
        simp only [Server.setPhase_phase, if_true] at hphase'
        cases got <;> cases hphase'
    | @serve other msg order hphase =>
        simp only [Server.setPhase_phase, if_true] at hphase'
        cases hphase'
        exact steady_handleJoined _ _ _ _
    | @lock _ _ _ _ _ _ hphase =>
        simp only [Server.setPhase_phase, if_true] at hphase'
        cases hphase'
        exact (hsteady _ _ _ _ _ hphase).2.2
    | @unlock _ _ _ _ _ hphase =>
        simp only [Server.setPhase_phase, if_true] at hphase'
        cases hphase'
        exact (hsteady _ _ _ _ _ hphase).2
    | @wrote _ _ _ _ _ _ hphase =>
        simp only [Server.setPhase_phase, if_true] at hphase'
        cases hphase'
        exact (hsteady _ _ _ _ _ hphase).2
    | @served name' held' bail' hphase =>
        simp only [Server.setPhase_phase, if_true] at hphase'
        split at hphase' <;> cases hphase'
    | _ => simp at hphase'
  · rw [h.phase_ne hut] at hphase'
    exact hsteady u name held acts bail hphase'

/-- **A wait appears** only when a handler takes its own writer for a DM. -/
theorem Moved.awaits (h : Moved s t action s') (hsteady : AllSteady s)
    (hawaits : Awaits s' own other) :
    Awaits s own other ∨ ∃ order name held rest bail, action = .acquire order ∧
      s.phase t = .serving name held (.lock own :: .lock other :: rest) bail := by
  obtain ⟨u, hheld, hwants⟩ := hawaits
  by_cases hut : u = t
  · subst hut
    -- the phases after the step in which a handler holds a writer and waits for one
    cases h with
    | @joined got hphase =>
        simp only [Server.setPhase_phase, if_true] at hwants
        unfold joinClient at hwants
        split at hwants <;> cases hwants
    | @received name got hphase =>
        simp only [Server.setPhase_phase, if_true] at hwants
        cases got <;> cases hwants
    | @serve name msg order hphase =>
        simp [Phase.held] at hheld
    | @lock name held own' rest bail order hphase =>
        obtain ⟨-, hempty, -⟩ := hsteady _ _ _ _ _ hphase
        simp only [Server.setPhase_phase, if_true] at hheld hwants
        cases rest with
        | nil => cases hwants
        | cons act rest =>
            cases act with
            | lock other' =>
                obtain rfl : held = [] := hempty (by simp [nextLock])
                obtain rfl : own = own' := by simpa [Phase.held] using hheld
                obtain rfl : other' = other := by simpa [Phase.wantsWriter] using hwants
                exact .inr ⟨order, name, [], rest, bail, rfl, hphase⟩
            | write | unlock => cases hwants
    | @unlock name held released rest bail hphase =>
        obtain ⟨hempty, -⟩ := hsteady _ _ _ _ _ hphase
        simp only [Server.setPhase_phase, if_true] at hheld hwants
        have hnext : nextLock rest ≠ none := by
          rcases rest with _ | ⟨_ | _ | _, _⟩ <;> simp_all [Phase.wantsWriter, nextLock]
        simp [Phase.held, hempty hnext] at hheld
    | @wrote name held connection msg rest bail hphase =>
        obtain ⟨hempty, -⟩ := hsteady _ _ _ _ _ hphase
        simp only [Server.setPhase_phase, if_true] at hheld hwants
        have hnext : nextLock rest ≠ none := by
          rcases rest with _ | ⟨_ | _ | _, _⟩ <;> simp_all [Phase.wantsWriter, nextLock]
        simp [Phase.held, hempty hnext] at hheld
    | @served name held bail hphase =>
        simp only [Server.setPhase_phase, if_true] at hwants
        split at hwants <;> cases hwants
    | _ => simp [Phase.wantsWriter] at hwants
  · rw [h.phase_ne hut] at hheld hwants
    exact .inl ⟨u, hheld, hwants⟩

theorem Moved.acyclic (h : Moved s t action s') (hsteady : AllSteady s)
    (hacyclic : Acyclic (Awaits s)) (huncrossed : Uncrossed s (.handler t action)) :
    Acyclic (Awaits s') := by
  by_cases hnew : ∃ order name held own other rest bail, action = .acquire order ∧
      s.phase t = .serving name held (.lock own :: .lock other :: rest) bail
  · obtain ⟨order, name, held, own, other, rest, bail, haction, hphase⟩ := hnew
    have hback := huncrossed t order name held own other rest bail (by rw [haction]) hphase
    refine hacyclic.insert hback fun own' other' hawaits => ?_
    refine (h.awaits hsteady hawaits).imp_right ?_
    rintro ⟨order', name', held', rest', bail', -, hphase'⟩
    rw [hphase] at hphase'
    cases hphase'
    exact ⟨rfl, rfl⟩
  · refine hacyclic.mono fun own other hawaits => ?_
    refine (h.awaits hsteady hawaits).resolve_right ?_
    rintro ⟨order, name, held, rest, bail, haction, hphase⟩
    exact hnew ⟨order, name, held, own, other, rest, bail, haction, hphase⟩

variable {maxClients : ℕ} {trace : List (Server × Label)}

theorem allSteady (hrun : Run (Fires (step maxClients)) Server.init trace s) : AllSteady s := by
  refine hrun.invariant (by simp [AllSteady, Server.init]) ?_
  intro s l s' hsteady hstep
  cases l with
  | handler t action => exact (moved_of_handlerStep hstep).steady hsteady
  | acceptor action =>
      cases acceptor_frame hstep with
      | quiet hphase _ =>
          unfold AllSteady
          rw [hphase]
          exact hsteady
      | spawn _ hphase _ =>
          intro u name held acts bail hu
          rw [hphase, Function.update_apply] at hu
          split at hu
          · cases hu
          · exact hsteady u name held acts bail hu
  | drop action =>
      obtain ⟨-, hphase, -, -⟩ := drop_frame hstep
      unfold AllSteady
      rw [hphase]
      exact hsteady

theorem acyclic_of_uncrossed (hrun : Run (Fires (step maxClients)) Server.init trace s)
    (huncrossed : ∀ p ∈ trace, Uncrossed p.1 p.2) : Acyclic (Awaits s) := by
  refine hrun.invariantTraceUnder (I := fun _ s => Acyclic (Awaits s)) huncrossed ?_ ?_
  · rintro name hcycle
    obtain ⟨_, ⟨t, hheld, -⟩, -⟩ := TransGen.head'_iff.mp hcycle
    simp [Server.init, Phase.held] at hheld
  · intro trace s l s' hrun hbefore huncrossed hstep
    cases l with
    | handler t action =>
        exact (moved_of_handlerStep hstep).acyclic (allSteady hrun) hbefore huncrossed
    | acceptor action =>
        refine hbefore.mono fun own other => ?_
        rintro ⟨u, hheld, hwants⟩
        cases acceptor_frame hstep with
        | quiet hphase _ => exact ⟨u, hphase ▸ hheld, hphase ▸ hwants⟩
        | spawn _ hphase _ =>
            rw [hphase, Function.update_apply] at hheld hwants
            split at hheld
            · cases hheld
            · next hu => exact ⟨u, hheld, by simpa [hu] using hwants⟩
    | drop action =>
        obtain ⟨-, hphase, -, -⟩ := drop_frame hstep
        refine hbefore.mono fun own other => ?_
        rintro ⟨u, hheld, hwants⟩
        exact ⟨u, hphase ▸ hheld, hphase ▸ hwants⟩

/-! ## No deadlock -/

namespace Phase

variable {phase : Phase}

theorem not_writes_of_waits (h : phase.waits = true) : phase.writes = false := by
  cases phase <;> simp_all [waits, wantsRead, wantsWrite, wantsWriter, writes]

/-- A handler that reads the table and waits, waits for a writer. -/
theorem wantsWriter_of_reads (h : phase.waits = true) (hreads : phase.reads = true) :
    ∃ other, phase.wantsWriter = some other := by
  cases phase <;>
    simp_all [waits, wantsRead, wantsWrite, wantsWriter, reads, Option.isSome_iff_exists]

private theorem reads_of_held {name : String} (h : name ∈ phase.held) : phase.reads = true := by
  cases phase <;> simp_all [held, reads]

private theorem reads_of_wantsWriter {name : String} (h : phase.wantsWriter = some name) :
    phase.reads = true := by
  cases phase <;> simp_all [wantsWriter, reads]

private theorem not_wants_of_reads (h : phase.reads = true) :
    phase.wantsRead = false ∧ phase.wantsWrite = false := by
  cases phase <;> simp_all [wantsRead, wantsWrite, reads]

end Phase

theorem waits_of_blockedBy (h : BlockedBy s t u) : (s.phase t).waits = true := by
  cases h with
  | read h | queued h | write h => simp [Phase.waits, h]
  | writer h => simp [Phase.waits, h]

/-- A circle of handlers would be a circle of DMs. -/
theorem not_deadlocked (hacyclic : Acyclic (Awaits s))
    (habsent : ∀ u : ℕ, s.spawned ≤ u → s.phase u = .absent) (handlers : Set ThreadId) :
    ¬ Deadlocked s handlers := by
  rintro ⟨⟨t, ht⟩, hblocked⟩
  have hwaits : ∀ t ∈ handlers, (s.phase t).waits = true := by
    intro t ht
    obtain ⟨_, _, _, h⟩ := hblocked t ht
    exact waits_of_blockedBy h
  -- the writers that these handlers wait for
  let wanted : Set String := {name | ∃ t ∈ handlers, (s.phase t).wantsWriter = some name}
  have hholder : ∀ t ∈ handlers, ∃ u ∈ handlers, BlockedBy s t u ∧
      ∃ other, (s.phase u).wantsWriter = some other := by
    intro t ht
    obtain ⟨u, hu, -, h⟩ := hblocked t ht
    have hreads : (s.phase u).reads = true := by
      have hwrites := Phase.not_writes_of_waits (hwaits u hu)
      cases h with
      | read _ h => simp [hwrites] at h
      | queued _ _ h => exact h
      | write _ h => exact h.resolve_right (by simp [hwrites])
      | writer _ h => exact Phase.reads_of_held h
    exact ⟨u, hu, h, Phase.wantsWriter_of_reads (hwaits u hu) hreads⟩
  have hnonempty : wanted.Nonempty := by
    obtain ⟨u, hu, -, other, hother⟩ := hholder t ht
    exact ⟨other, u, hu, hother⟩
  have hnext : ∀ name ∈ wanted, ∃ other ∈ wanted, Awaits s name other := by
    rintro name ⟨t, ht, hwants⟩
    obtain ⟨u, hu, h, other, hother⟩ := hholder t ht
    have hother' : other ∈ wanted := ⟨u, hu, hother⟩
    have hnot := Phase.not_wants_of_reads (Phase.reads_of_wantsWriter hwants)
    cases h with
    | read h | queued h => simp [hnot.1] at h
    | write h => simp [hnot.2] at h
    | writer h hheld =>
        obtain rfl := Option.some.inj (hwants.symm.trans h)
        exact ⟨other, hother', u, hheld, hother⟩
  have hfinite : wanted.Finite := by
    have hheld : (⋃ u ∈ {u : ℕ | u < s.spawned}, {name | name ∈ (s.phase u).held}).Finite :=
      (Set.finite_lt_nat _).biUnion fun u _ => List.finite_toSet _
    refine hheld.subset fun name hname => ?_
    obtain ⟨other, -, u, hu, -⟩ := hnext name hname
    have hspawned : u < s.spawned := by
      by_contra hle
      simp [habsent u (Nat.le_of_not_lt hle), Phase.held] at hu
    exact Set.mem_biUnion hspawned hu
  obtain ⟨sink, hsink, hnone⟩ := hacyclic.exists_sink hfinite hnonempty
  obtain ⟨other, hother, hawaits⟩ := hnext sink hsink
  exact hnone other hother hawaits

/-! ## Who can go on -/

/-- Handler `t` can take a step without its peer, even if waiting writers keep new readers
out of the table. -/
def CanStep (s : Server) (t : ThreadId) : Prop :=
  ((s.phase t).wantsRead = true → ∀ u, (s.phase u).wantsWrite = false) ∧
    ∃ action, (∀ got, action ≠ .read got) ∧ ∃ s', handlerStep s t action = some s'

/-- A handler that holds a guard of the table goes on or waits for a writer. -/
theorem canStep_of_holds (h : (s.phase t).reads = true ∨ (s.phase t).writes = true) :
    CanStep s t ∨ (s.phase t).waits = true := by
  have hcan : ∀ action s', (∀ got, action ≠ .read got) → handlerStep s t action = some s' →
      CanStep s t := by
    intro action s' hread hstep
    refine ⟨fun hwants => ?_, action, hread, s', hstep⟩
    cases hphase : s.phase t <;> simp_all [Phase.wantsRead, Phase.reads, Phase.writes]
  cases hphase : s.phase t with
  | checked name taken =>
      cases taken <;> exact .inl (hcan .release _ (by simp) (by simp [handlerStep, hphase]; rfl))
  | inserted name | left name =>
      exact .inl (hcan .release _ (by simp) (by simp [handlerStep, hphase]; rfl))
  | serving name held acts bail =>
      cases acts with
      | nil => exact .inl (hcan .release _ (by simp) (by simp [handlerStep, hphase]; rfl))
      | cons act rest =>
          cases act with
          | lock other => exact .inr (by simp [Phase.waits, Phase.wantsWriter])
          | write connection msg =>
              exact .inl (hcan (.wrote true) _ (by simp) (by simp [handlerStep, hphase]; rfl))
          | unlock other =>
              exact .inl (hcan .release _ (by simp) (by simp [handlerStep, hphase]; rfl))
  | _ => simp [hphase, Phase.reads, Phase.writes] at h

theorem canStep_of_readable (hwants : (s.phase t).wantsRead = true) (hfree : s.Readable)
    (hqueue : ∀ u, (s.phase u).wantsWrite = false) : CanStep s t := by
  refine ⟨fun _ => hqueue, ?_⟩
  cases hphase : s.phase t with
  | checking name =>
      exact ⟨.acquire [], by simp, _, by simp [handlerStep, hphase, hfree]; rfl⟩
  | requesting name msg =>
      obtain ⟨order, horder⟩ := HashMap.exists_enumerates s.clients
      exact ⟨.acquire order, by simp, _, by simp [handlerStep, hphase, hfree, horder]; rfl⟩
  | _ => simp [hphase, Phase.wantsRead] at hwants

theorem canStep_of_writable (hwants : (s.phase t).wantsWrite = true) (hfree : s.Writable) :
    CanStep s t := by
  cases hphase : s.phase t with
  | inserting name | leaving name =>
      exact ⟨by simp [hphase, Phase.wantsRead], .acquire [], by simp, _,
        by simp [handlerStep, hphase, hfree]; rfl⟩
  | _ => simp [hphase, Phase.wantsWrite] at hwants

theorem canStep_of_writerFree (hwants : (s.phase t).wantsWriter = some other)
    (hfree : s.WriterFree other) : CanStep s t := by
  cases hphase : s.phase t with
  | serving name held acts bail =>
      rcases acts with _ | ⟨_ | _ | _, rest⟩ <;> simp [hphase, Phase.wantsWriter] at hwants
      subst hwants
      exact ⟨by simp [hphase, Phase.wantsRead], .acquire [], by simp, _,
        by simp [handlerStep, hphase, hfree]; rfl⟩
  | _ => simp [hphase, Phase.wantsWriter] at hwants

/-- If nobody can go on, a handler that waits for the table waits for a reader that waits
itself. -/
theorem exists_waiting_reader (hnone : ∀ u, ¬ CanStep s u) (hdrop : s.drop.reads = false)
    (hwants : (s.phase t).wantsWrite = true) :
    ∃ u, (s.phase u).reads = true ∧ (s.phase u).waits = true := by
  have hbusy : ¬ s.Writable := fun hfree => hnone t (canStep_of_writable hwants hfree)
  simp only [Server.Writable, hdrop, true_and, not_forall] at hbusy
  obtain ⟨u, -, hholds⟩ := hbusy
  have hholds : (s.phase u).reads = true ∨ (s.phase u).writes = true := by
    cases hreads : (s.phase u).reads <;> cases hwrites : (s.phase u).writes <;> simp_all
  have hwaits := (canStep_of_holds hholds).resolve_left (hnone u)
  exact ⟨u, hholds.resolve_right (by simp [Phase.not_writes_of_waits hwaits]), hwaits⟩

/-- No handler waits for a writer it holds. -/
theorem not_held_of_wantsWriter (hsteady : AllSteady s)
    (hwants : (s.phase t).wantsWriter = some other) :
    other ∉ (s.phase t).held := by
  cases hphase : s.phase t with
  | serving name held acts bail =>
      rcases acts with _ | ⟨_ | _ | _, rest⟩ <;> simp [hphase, Phase.wantsWriter] at hwants
      subst hwants
      exact (hsteady t name held _ bail hphase).1
  | _ => simp [hphase, Phase.wantsWriter] at hwants

/-- **Progress.**  Without a circle of DMs, and while the drop does not hold the table, a
handler that waits for a lock implies a handler that can go on. -/
theorem exists_canStep (hacyclic : Acyclic (Awaits s)) (hsteady : AllSteady s)
    (habsent : ∀ u : ℕ, s.spawned ≤ u → s.phase u = .absent) (hdrop : s.drop.reads = false)
    (ht : (s.phase t).waits = true) : ∃ u, CanStep s u := by
  by_contra hnone
  push Not at hnone
  refine not_deadlocked hacyclic habsent {u | (s.phase u).waits = true} ⟨⟨t, ht⟩, ?_⟩
  intro u hu
  have hne : ∀ {v}, (s.phase v).reads = true →
      (s.phase u).wantsRead = true ∨ (s.phase u).wantsWrite = true → v ≠ u := by
    rintro v hreads hwants rfl
    simp [Phase.not_wants_of_reads hreads] at hwants
  rcases hread : (s.phase u).wantsRead with _ | _
  · rcases hwrite : (s.phase u).wantsWrite with _ | _
    · -- it waits for a writer
      obtain ⟨other, hother⟩ : ∃ other, (s.phase u).wantsWriter = some other := by
        simpa [Phase.waits, hread, hwrite, Option.isSome_iff_exists] using hu
      have hbusy : ¬ s.WriterFree other := fun hfree => hnone u (canStep_of_writerFree hother hfree)
      simp only [Server.WriterFree, not_forall, not_not] at hbusy
      obtain ⟨v, -, hheld⟩ := hbusy
      have hwaits := (canStep_of_holds (.inl (Phase.reads_of_held hheld))).resolve_left (hnone v)
      -- a handler that holds a writer can go on, unless it waits for another one
      refine ⟨v, hwaits, ?_, .writer hother hheld⟩
      intro heq
      subst heq
      exact not_held_of_wantsWriter hsteady hother hheld
    · -- it waits for the table to be free
      obtain ⟨v, hreads, hwaits⟩ := exists_waiting_reader hnone hdrop hwrite
      exact ⟨v, hwaits, hne hreads (.inr hwrite), .write hwrite (.inl hreads)⟩
  · -- it waits to read the table
    by_cases hqueue : ∀ w, (s.phase w).wantsWrite = false
    · have hbusy : ¬ s.Readable := fun hfree => hnone u (canStep_of_readable hread hfree hqueue)
      simp only [Server.Readable, not_forall, Bool.not_eq_false] at hbusy
      obtain ⟨v, -, hwrites⟩ := hbusy
      have hwaits := (canStep_of_holds (.inr hwrites)).resolve_left (hnone v)
      simp [Phase.not_writes_of_waits hwaits] at hwrites
    · simp only [not_forall, Bool.not_eq_false] at hqueue
      obtain ⟨w, hw⟩ := hqueue
      -- somebody waits to write, and the reader that keeps it waiting waits as well
      obtain ⟨v, hreads, hwaits⟩ := exists_waiting_reader hnone hdrop hw
      exact ⟨v, hwaits, hne hreads (.inl hread), .queued hread hw hreads⟩

/-- **The condition is exact**: a step that is not `Uncrossed` leads into a deadlock. -/
theorem deadlocked_of_crossed (hsteady : AllSteady s) {order : List (String × ThreadId)}
    {name : String} {held : List String} {rest : List Act} {bail : Bool}
    (hphase : s.phase t = .serving name held (.lock own :: .lock other :: rest) bail)
    (hmoved : Moved s t (.acquire order) s') (hcross : ReflTransGen (Awaits s) other own) :
    ∃ handlers, Deadlocked s' handlers := by
  obtain ⟨-, hempty, hnotOwn, -, -⟩ := hsteady t name held _ bail hphase
  obtain rfl : held = [] := hempty (by simp [nextLock])
  have hne : other ≠ own := by simpa using hnotOwn
  have hafter : s'.phase t = .serving name [own] (.lock other :: rest) bail := by
    cases hmoved <;> simp_all
  -- a handler that holds a writer on the way from `other` to `own`, other than that of `own`
  have hnext : ∀ {writer}, ReflTransGen (Awaits s) writer own → writer ≠ own →
      ∃ v next, v ≠ t ∧ writer ∈ (s.phase v).held ∧ (s.phase v).wantsWriter = some next ∧
        ReflTransGen (Awaits s) next own := by
    intro writer hpath hwriter
    obtain ⟨next, ⟨v, hheld, hwants⟩, hpath⟩ := hpath.cases_head.resolve_left hwriter
    refine ⟨v, next, ?_, hheld, hwants, hpath⟩
    intro heq
    subst heq
    simp [hphase, Phase.held] at hheld
  refine ⟨{u | u = t ∨ u ≠ t ∧ ∃ next, (s.phase u).wantsWriter = some next ∧
    ReflTransGen (Awaits s) next own}, ⟨t, .inl rfl⟩, ?_⟩
  rintro u (rfl | ⟨hut, writer, hwants, hpath⟩)
  · obtain ⟨v, next, hvu, hheld, hwants, hpath⟩ := hnext hcross hne
    have hwaits : (s'.phase u).wantsWriter = some other := by simp [hafter, Phase.wantsWriter]
    rw [← hmoved.phase_ne hvu] at hheld
    exact ⟨v, .inr ⟨hvu, next, hwants, hpath⟩, hvu, .writer hwaits hheld⟩
  · by_cases hwriter : writer = own
    · have hheld : writer ∈ (s'.phase t).held := by simp [hafter, Phase.held, hwriter]
      rw [← hmoved.phase_ne hut] at hwants
      exact ⟨t, .inl rfl, Ne.symm hut, .writer hwants hheld⟩
    · obtain ⟨v, next, hvt, hheld, hwants', hpath'⟩ := hnext hpath hwriter
      have hvu : v ≠ u := by
        intro heq
        subst heq
        exact not_held_of_wantsWriter hsteady hwants hheld
      rw [← hmoved.phase_ne hut] at hwants
      rw [← hmoved.phase_ne hvt] at hheld
      exact ⟨v, .inr ⟨hvt, next, hwants', hpath'⟩, hvu, .writer hwants hheld⟩

variable {maxClients : ℕ} {trace : List (Server × Label)}

/-! ## The two parts together -/

/-- **Handlers do not deadlock** in a run in which no handler takes its own writer for a
DM whose recipient's writer is held by a handler that waits, directly or through other
DMs, for it.  And until the drop holds the table, a handler that waits for a lock implies
one that can take a step. -/
theorem no_deadlock_of_uncrossed (hrun : Run (Fires (step maxClients)) Server.init trace s)
    (huncrossed : ∀ p ∈ trace, Uncrossed p.1 p.2) :
    (∀ handlers, ¬ Deadlocked s handlers) ∧
      (s.drop.reads = false → (∃ t, (s.phase t).waits = true) → ∃ u, CanStep s u) := by
  have hacyclic := acyclic_of_uncrossed hrun huncrossed
  refine ⟨not_deadlocked hacyclic (absent_of_le hrun), ?_⟩
  rintro hdrop ⟨t, ht⟩
  exact exists_canStep hacyclic (allSteady hrun) (absent_of_le hrun) hdrop ht

/-- A DM whose recipient's writer is free closes no circle. -/
theorem not_reaches_of_free (hne : other ≠ own) (hfree : s.WriterFree other)
    (habsent : ∀ u : ℕ, s.spawned ≤ u → s.phase u = .absent) :
    ¬ ReflTransGen (Awaits s) other own := by
  intro hpath
  obtain ⟨next, ⟨u, hheld, -⟩, -⟩ := hpath.cases_head.resolve_left hne
  by_cases hu : u < s.spawned
  · exact hfree u hu hheld
  · simp [habsent u (Nat.le_of_not_lt hu), Phase.held] at hheld

/-- Client `a` is in the middle of a DM to `b` and holds both writers, when `b` sends one to
`a`: its handler waits for its own writer, and the other one can go on. -/
theorem no_deadlock_of_uncrossed_dm :
    ∃ trace s, Run (Fires (step 2)) Server.init trace s ∧ BlockedBy s 1 0 ∧
      (∀ handlers, ¬ Deadlocked s handlers) ∧ ∃ u, CanStep s u := by
  have start : Run (Fires (step 2)) Server.init [] Server.init := .nil
  have accepted := ((((((((start.fire (.acceptor .accept) rfl).fire (.acceptor .load) rfl).fire
    (.acceptor .lock) rfl).fire (.acceptor .reap) rfl).fire (.acceptor .accept) rfl).fire
    (.acceptor .load) rfl).fire (.acceptor .lock) rfl).fire (.acceptor .reap) rfl).fire
    (.acceptor .reap) rfl
  have joined := (((((((((((accepted.fire (.handler 0 (.read (.msg (.join "a")))) rfl).fire
    (.handler 0 (.acquire [])) rfl).fire (.handler 0 .release) rfl).fire
    (.handler 0 (.wrote true)) rfl).fire (.handler 0 (.acquire [])) rfl).fire
    (.handler 0 .release) rfl).fire (.handler 1 (.read (.msg (.join "b")))) rfl).fire
    (.handler 1 (.acquire [])) rfl).fire (.handler 1 .release) rfl).fire
    (.handler 1 (.wrote true)) rfl).fire (.handler 1 (.acquire [])) rfl).fire
    (.handler 1 .release) rfl
  have asked := (joined.fire (.handler 0 (.read (.msg (.sendDM "b" "hi")))) rfl).fire
    (.handler 0 (.acquire [("a", 0), ("b", 1)])) rfl
  have hrun := (((asked.fire (.handler 0 (.acquire [])) rfl).fire (.handler 0 (.acquire []))
    rfl).fire (.handler 1 (.read (.msg (.sendDM "a" "hello")))) rfl).fire
    (.handler 1 (.acquire [("a", 0), ("b", 1)])) rfl
  -- the only step of a DM that could close a circle is taken while no writer is held
  obtain ⟨hnone, hprogress⟩ := no_deadlock_of_uncrossed hrun <| by
    intro p hp t order name held own other rest bail hl hphase
    simp only [List.nil_append, List.cons_append, List.mem_cons, List.not_mem_nil, or_false] at hp
    rcases hp with rfl | rfl | rfl | rfl | rfl | rfl | rfl | rfl | rfl | rfl | rfl | rfl | rfl |
      rfl | rfl | rfl | rfl | rfl | rfl | rfl | rfl | rfl | rfl | rfl | rfl | rfl | rfl <;>
      cases hl <;> cases hphase
    exact not_reaches_of_free (by decide) (by decide) (absent_of_le asked)
  exact ⟨_, _, hrun, .writer rfl (List.mem_cons_self ..), hnone, hprogress rfl ⟨1, rfl⟩⟩

/-! ## DMs that cross -/

/-- Two clients send DMs to each other, and both handlers take their own writer first. -/
theorem crossed_dms_deadlock :
    ∃ trace s, Run (Fires (step 2)) Server.init trace s ∧ Deadlocked s {0, 1} := by
  obtain ⟨trace, s, hrun, hp⟩ := exists_run_of_replay (step 2) Server.init
    (connects 0 ++ connects 1 ++ joins 0 "a" ++ joins 1 "b" ++
      [.handler 0 (.read (.msg (.sendDM "b" "hello"))),
        .handler 1 (.read (.msg (.sendDM "a" "hello"))),
        .handler 0 (.acquire [("a", 0), ("b", 1)]), .handler 1 (.acquire [("a", 0), ("b", 1)]),
        .handler 0 (.acquire []), .handler 1 (.acquire [])])
    (fun r => decide (((r.2.phase 0).wantsWriter = some "b" ∧ "b" ∈ (r.2.phase 1).held) ∧
      (r.2.phase 1).wantsWriter = some "a" ∧ "a" ∈ (r.2.phase 0).held))
    (by decide +kernel)
  simp only [decide_eq_true_eq] at hp
  refine ⟨trace, s, hrun, ⟨0, by simp⟩, ?_⟩
  rintro t (rfl | rfl)
  · exact ⟨1, by simp, by decide, .writer hp.1.1 hp.1.2⟩
  · exact ⟨0, by simp, by decide, .writer hp.2.1 hp.2.2⟩

end RustCourse.Lesson08
