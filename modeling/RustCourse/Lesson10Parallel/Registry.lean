import RustCourse.Lesson10Parallel.Steps
import RustCourse.Lib.Registry

/-!
# The clients table of the lesson 10_parallel server

A handler finds its name free under a read guard and inserts it under a write guard that
it acquires after it has sent `Welcome`, so two handlers can insert one name.  In every run
in which that does not happen (`Unraced`), the entry of a name is that of the handler which
uses it, from its `insert` to its `remove` (`owned_of_run`).

## Strategy

The ownership of entries is that of `Lib/Registry`, so it is enough to say how a step changes
the table (`Moved.clients`) and the names in use (`Moved.updated`).  An `insert` is the only
step that can take a name, and `Unraced` says that nobody uses it then.
-/

namespace RustCourse.Lesson10Parallel

open Chat Transition

/-! ## Names and races -/

/-- From the `insert` to the `remove`: the name under which the handler is registered. -/
def Phase.registered : Phase → Option String
  | .receiving name => some name
  | .doing (.react name _) _ => some name
  | .doing (.send name _ _ _ _) _ => some name
  | .reacted name _ => some name
  | .doing (.leave name) _ => some name
  | _ => none

/-- The step does not insert a name that is in the table. -/
def Unraced (s : Server) : Label → Prop
  | .act t _ =>
      match s.phase t with
      | .doing (.insert name) .holding => name ∉ s.clients
      | _ => True
  | _ => True

instance (s : Server) (l : Label) : Decidable (Unraced s l) := by
  unfold Unraced
  split
  · split <;> infer_instance
  · infer_instance

theorem Unraced.notMem {s : Server} {t : TaskId} {order : List (String × TaskId)} {name : String}
    (h : Unraced s (.act t order)) (hphase : s.phase t = .doing (.insert name) .holding) :
    name ∉ s.clients := by
  simpa [Unraced, hphase] using h

/-! ## Entries -/

/-- Every registered handler has its entry. -/
def Owned (s : Server) : Prop :=
  Registry.Owned (fun t => (s.phase t).registered) s.clients

variable {maxClients : ℕ} {trace : List (Server × Label)} {s s' : Server} {t : TaskId}
  {l : Label} {name : String}

@[simp] theorem registered_reacting (bail : Bool) (sends : List (TaskId × ServerToClientMsg)) :
    (reacting name bail sends).registered = some name := by
  cases sends <;> rfl

/-- What a handler does to the table. -/
theorem Moved.clients (h : Moved s t l s') :
    s'.clients = s.clients ∨
      (∃ name order, s.phase t = .doing (.insert name) .holding ∧ l = .act t order ∧
        s'.clients = s.clients.insert name t) ∨
      ∃ name, s.phase t = .doing (.leave name) .holding ∧ s'.clients = s.clients.erase name := by
  cases h with
  | inserted hphase => exact .inr (.inl ⟨_, _, hphase, rfl, rfl⟩)
  | left hphase => exact .inr (.inr ⟨_, hphase, rfl⟩)
  | _ => exact .inl rfl

/-- Every handler is registered by its `insert`, and not after its `remove`. -/
theorem Moved.updated (h : Moved s t l s') (hunraced : Unraced s l) :
    Registry.Updated (fun u => (s.phase u).registered) (fun u => (s'.phase u).registered)
      s.clients t s'.clients := by
  cases h with
  | @joined got hphase =>
      refine .kept fun name hname => ?_
      simp only [Server.setPhase_phase, if_true] at hname
      unfold joinClient at hname
      split at hname <;> simp [Phase.registered] at hname
  | @received other got hphase =>
      refine .kept fun name hname => ?_
      cases got <;> simp_all [handleClient, Phase.registered]
  | @requested work hphase | @granted work hphase =>
      refine .kept fun name hname => ?_
      cases work <;> simp_all [Phase.registered]
  | inserted hphase =>
      exact .inserted (hunraced.notMem hphase) fun name hname => by simp_all [Phase.registered]
  | reacts hphase | sent hphase =>
      refine .kept fun name hname => ?_
      simp only [Server.setPhase_phase, if_true, registered_reacting] at hname
      simpa [hphase, Phase.registered] using hname
  | left hphase => exact .removed (by simp [hphase, Phase.registered]) (by simp [Phase.registered])
  | _ =>
      refine .kept fun name hname => ?_
      simp_all [Phase.registered]

theorem Owned.step (h : Owned s) (hunraced : Unraced s l) (hstep : Stepped maxClients s l s') :
    Owned s' := by
  cases hstep with
  | @spawned t _ habsent _ =>
      refine h.update (t := t) (.kept fun name hname => ?_) fun u hu => by simp [hu]
      simp [Phase.registered] at hname
  | turnedAway | refusal | reaped | stopped => exact h
  | moved hmoved =>
      exact h.update (hmoved.updated hunraced) fun u hu => by rw [hmoved.phase_ne hu]

/-- **Entries stay with their handlers** in every run without a race. -/
theorem owned_of_run (hrun : Run (Fires (step maxClients)) Server.init trace s)
    (hunraced : ∀ p ∈ trace, Unraced p.1 p.2) : Owned s :=
  hrun.invariantUnder hunraced (by simp [Owned, Registry.Owned, Server.init, Phase.registered])
    fun _ _ _ h hunraced hstep => h.step hunraced (stepped_of_step hstep)

end RustCourse.Lesson10Parallel
