import RustCourse.Lesson10Parallel.Steps
import RustCourse.Lib.Roster

/-!
# Whom lesson 10_parallel refuses

`run_server` refuses a connection if `max_clients` tasks are in the `JoinSet`.  Some of
them may have ended: `join_next` is one branch of the `select!` and `accept` another one,
and nothing says which is taken first.  The `JoinSet` is a roster of the handlers that run,
so the limit is never exceeded, and `admission_iff` says that a connection is refused
without need exactly if it is accepted before an ended task of a full `JoinSet` is reaped.

## Strategy

As in lesson 10 the `JoinSet` is a roster of the handlers that run (`Seated`), but the branch
of `select!` that accepts a connection tests its length first, so the bound holds in every run.
A refusal is needless exactly if one on the roster has ended: `Overlooks` is this condition, on
the state before the accept.
-/

namespace RustCourse.Lesson10Parallel

open Transition

/-! ## What the limit should mean -/

/-- The handler tasks that run. -/
def Server.running (s : Server) : Set TaskId :=
  {t | s.phase t ≠ .absent ∧ s.phase t ≠ .ended}

/-- The limit is kept in every state of the run, and a connection is refused if and only if
it finds `max_clients` handlers running. -/
structure AdmitsExactly (maxClients : ℕ) (trace : List (Server × Label)) (s : Server) : Prop where
  visited : ∀ p ∈ trace, p.1.running.encard ≤ maxClients
  reached : s.running.encard ≤ maxClients
  refuses : ∀ p ∈ trace, ∀ t s', p.2 = .accept t → step maxClients p.1 p.2 = some s' →
    (s'.acceptor = .refusing ↔ p.1.running.encard = maxClients)

/-- The step accepts a connection while there are `max_clients` tasks in the `JoinSet`, one
of which has ended. -/
def Overlooks (maxClients : ℕ) (s : Server) (l : Label) : Prop :=
  (∃ t, l = .accept t) ∧ s.joinSet.length = maxClients ∧ ∃ u ∈ s.joinSet, s.phase u = .ended

instance (maxClients : ℕ) (s : Server) (t : TaskId) :
    Decidable (Overlooks maxClients s (.accept t)) :=
  decidable_of_iff (s.joinSet.length = maxClients ∧ ∃ u ∈ s.joinSet, s.phase u = .ended)
    ⟨fun h => ⟨⟨t, rfl⟩, h⟩, fun h => h.2⟩

section Steps

variable {maxClients : ℕ} {s s' : Server} {l : Label} {t u : TaskId}

theorem joinClient_ne_absent (got : Received) : joinClient got ≠ .absent := by
  unfold joinClient
  split <;> simp

private theorem reacting_ne_absent {name : String} {bail : Bool}
    (sends : List (TaskId × Chat.ServerToClientMsg)) : reacting name bail sends ≠ .absent := by
  cases sends <;> simp [reacting]

/-- Only a running handler moves. -/
theorem Moved.mem_running (h : Moved s t l s') : t ∈ s.running := by
  cases h with
  | cancelled _ hthere hlive => exact ⟨hthere, hlive⟩
  | _ => simp [Server.running, *]

theorem Moved.there (h : Moved s t l s') : s'.phase t ≠ .absent := by
  cases h with
  | @joined got => simpa using joinClient_ne_absent got
  | @received name got => cases got <;> simp [handleClient]
  | reacts | sent => simpa using reacting_ne_absent _
  | _ => simp

theorem Moved.running_subset (h : Moved s t l s') : s'.running ⊆ s.running := by
  intro u hu
  by_cases hself : u = t
  · exact hself ▸ h.mem_running
  · simpa [Server.running, h.phase_ne hself] using hu

/-- The `JoinSet` is a roster of the handlers that run, of at most `max_clients` tasks that
were started. -/
structure Seated (maxClients : ℕ) (s : Server) : Prop where
  roster : Roster s.joinSet s.running
  started : ∀ t ∈ s.joinSet, s.phase t ≠ .absent
  bounded : s.joinSet.length ≤ maxClients

theorem Seated.moved (h : Seated maxClients s) (hmoved : Moved s t l s') :
    Seated maxClients s' := by
  refine ⟨?_, fun u hu => ?_, hmoved.joinSet ▸ h.bounded⟩
  · rw [hmoved.joinSet]
    exact h.roster.mono hmoved.running_subset
  · by_cases hself : u = t
    · exact hself ▸ hmoved.there
    · rw [hmoved.phase_ne hself]
      exact h.started u (hmoved.joinSet ▸ hu)

theorem Seated.step (h : Seated maxClients s) (hstep : step maxClients s l = some s') :
    Seated maxClients s' := by
  cases stepped_of_step hstep with
  | turnedAway | refusal | stopped => exact ⟨h.roster, h.started, h.bounded⟩
  | @reaped t _ hended =>
      have hleft : t ∉ s.running := fun hlive => hlive.2 hended
      exact ⟨h.roster.erase hleft, fun u hu => h.started u (List.mem_of_mem_erase hu),
        (List.length_erase_le).trans h.bounded⟩
  | @spawned t _ habsent hroom =>
      have hnew : t ∉ s.joinSet := fun hmem => h.started t hmem habsent
      refine ⟨h.roster.cons hnew fun u hu => ?_, fun u hu => ?_, hroom⟩
      · by_cases hself : u = t
        · exact .inl hself
        · exact .inr (by simpa [Server.running, hself] using hu)
      · by_cases hself : u = t
        · simp [hself]
        · simpa [hself] using h.started u (by simpa [hself] using hu)
  | moved hmoved => exact h.moved hmoved

/-- **Admission.**  A connection is refused if and only if it finds `max_clients` handlers
running, unless one of as many tasks has ended. -/
theorem Seated.refusing_iff (h : Seated maxClients s)
    (hstep : Lesson10Parallel.step maxClients s (.accept t) = some s') :
    (s'.acceptor = .refusing ↔ s.running.encard = maxClients) ↔
      ¬ Overlooks maxClients s (.accept t) := by
  cases stepped_of_step hstep with
  | spawned hlistening _ hroom =>
      have hfew : s.running.encard < maxClients :=
        h.roster.encard_le.trans_lt (by exact_mod_cast hroom)
      have hserved : ¬ Overlooks maxClients s (.accept t) := fun hover => hroom.ne hover.2.1
      have hnext : (s.setPhase t .joining).acceptor = .listening := hlistening
      simp [hnext, hfew.ne, hserved]
  | turnedAway _ hfull =>
      have hlength : s.joinSet.length = maxClients := h.bounded.antisymm hfull
      simp only [true_iff]
      calc s.running.encard = maxClients
          ↔ s.running.encard = s.joinSet.length := by rw [hlength]
        _ ↔ ∀ u ∈ s.joinSet, u ∈ s.running := h.roster.encard_eq_length_iff
        _ ↔ ∀ u ∈ s.joinSet, s.phase u ≠ .ended :=
            forall₂_congr fun u hu => and_iff_right (h.started u hu)
        _ ↔ ¬ Overlooks maxClients s (.accept t) := by simp [Overlooks, hlength]
  | moved hmoved => nomatch hmoved

end Steps

section Runs

variable {maxClients : ℕ} {trace : List (Server × Label)} {s : Server}

theorem seated_of_run (hrun : Run (Fires (step maxClients)) Server.init trace s) :
    Seated maxClients s := by
  refine hrun.invariant ?_ fun s l s' h hstep => h.step hstep
  have hnone : Server.init.running = ∅ := by simp [Server.running, Server.init]
  exact ⟨hnone ▸ Roster.nil_empty, by simp [Server.init], Nat.zero_le _⟩

/-- No more handlers run than there are places. -/
theorem running_le_of_run (hrun : Run (Fires (step maxClients)) Server.init trace s) :
    s.running.encard ≤ maxClients := by
  have hseated := seated_of_run hrun
  exact hseated.roster.encard_le.trans (by exact_mod_cast hseated.bounded)

private theorem not_admitsExactly (hrun : Run (Fires (step maxClients)) Server.init trace s)
    {p : Server × Label} (hp : p ∈ trace) (hover : Overlooks maxClients p.1 p.2) :
    ¬ AdmitsExactly maxClients trace s := by
  intro h
  obtain ⟨q, l⟩ := p
  obtain ⟨t, rfl⟩ := hover.1
  obtain ⟨before, s', -, hbefore, hstep⟩ := hrun.exists_before hp
  exact ((seated_of_run hbefore).refusing_iff hstep).mp (h.refuses _ hp t s' rfl hstep) hover

/-! ## Every run -/

/-- **When nobody is refused without need.**  In a run, no more than `max_clients` handlers
run at any time and a connection is refused if and only if it finds this many, if and only
if no connection is accepted while there are `max_clients` tasks in the `JoinSet` and one of
them has ended. -/
theorem admission_iff (hrun : Run (Fires (step maxClients)) Server.init trace s) :
    AdmitsExactly maxClients trace s ↔ ∀ p ∈ trace, ¬ Overlooks maxClients p.1 p.2 := by
  constructor
  · intro h p hp hover
    exact not_admitsExactly hrun hp hover h
  · intro h
    refine ⟨fun p hp => ?_, running_le_of_run hrun, ?_⟩
    · obtain ⟨before, -, -, hbefore, -⟩ := hrun.exists_before hp
      exact running_le_of_run hbefore
    · rintro ⟨q, l⟩ hp t s' rfl hstep
      obtain ⟨before, -, -, hbefore, -⟩ := hrun.exists_before hp
      exact ((seated_of_run hbefore).refusing_iff hstep).mpr (h _ hp)

/-- A client joins, a second one is refused, and once the first one has gone and was reaped
a third one is let in. -/
theorem admission_iff_reaped :
    ∃ trace s, Run (Fires (step 1)) Server.init trace s ∧ s.phase 2 = .joining ∧
      AdmitsExactly 1 trace s := by
  obtain ⟨trace, s, hrun, hp⟩ := exists_run_of_replay (step 1) Server.init
    [.accept 0, .accept 1, .refused true, .recv 0 .err, .reap 0, .accept 2]
    (fun r => decide (r.2.phase 2 = .joining ∧
      ∀ p ∈ r.1, ∀ u ∈ p.1.joinSet, p.1.phase u = .ended → p.2 = .reap 0))
    (by decide +kernel)
  obtain ⟨hjoining, hreaped⟩ :
      s.phase 2 = .joining ∧ ∀ p ∈ trace, ∀ u ∈ p.1.joinSet, p.1.phase u = .ended → p.2 = .reap 0 :=
    of_decide_eq_true hp
  refine ⟨trace, s, hrun, hjoining, (admission_iff hrun).mpr ?_⟩
  rintro p hp ⟨⟨t, haccept⟩, -, u, hu, hended⟩
  have hreap := hreaped p hp u hu hended
  simp [haccept] at hreap

/-- With `max_clients` set to 1, the second client is refused although the handler of the
first one has ended. -/
theorem unreaped_task_causes_refusal :
    ∃ trace s, Run (Fires (step 1)) Server.init trace s ∧ s.acceptor = .refusing ∧
      s.phase 0 = .ended ∧ ¬ AdmitsExactly 1 trace s := by
  obtain ⟨trace, s, hrun, hp⟩ := exists_run_of_replay (step 1) Server.init
    [.accept 0, .recv 0 .err, .accept 1]
    (fun r => decide (r.2.acceptor = .refusing ∧ r.2.phase 0 = .ended ∧
      ∃ p ∈ r.1, p.2 = .accept 1 ∧ Overlooks 1 p.1 (.accept 1))) (by decide +kernel)
  obtain ⟨hrefusing, hended, p, hp, haccept, hover⟩ :
      s.acceptor = .refusing ∧ s.phase 0 = .ended ∧
        ∃ p ∈ trace, p.2 = .accept 1 ∧ Overlooks 1 p.1 (.accept 1) := of_decide_eq_true hp
  exact ⟨trace, s, hrun, hrefusing, hended, not_admitsExactly hrun hp (haccept ▸ hover)⟩

end Runs

end RustCourse.Lesson10Parallel
