import RustCourse.Lesson10.Isolation

/-!
# When the clients map lists exactly the clients that are there

Every name in the map should belong to a handler that is still in its loop (`Clean`):
then a name is free again once its client is gone, and `ListUsers` shows nobody who
left.  `handle_client` removes the name on every `break` out of the loop, but the `?`
after the write of a queued message returns before the `remove`, and so does a panic of
the reader.  `clean_iff` says that these two are the only ways: while `run_server`
runs and the names sent in `Join` are distinct, the map is clean if and only if no
step of the run dropped a handler.

Two invariants carry this.  Without drops an entry always names a handler in its
loop (`EntriesServed`).  With distinct names a handler in its loop holds the entry of
its name (`Owned`), so a dropped handler leaves its entry behind, and nobody else
ever touches it.
-/

namespace RustCourse.Lesson10

open Chat Transition

/-! ## Who uses which name -/

namespace Phase

/-- The username of a task from the check of its `Join` to its end. -/
def named : Phase → Option String
  | .welcoming name => some name
  | .receiving name => some name
  | .replying name _ _ => some name
  | .forwarding name _ => some name
  | .absent => none
  | .joining => none
  | .refusing _ => none
  | .ended => none

theorem named_of_serving {phase : Phase} {name : String} (h : phase.serving = some name) :
    phase.named = some name := by
  cases phase <;> simp_all [named]

end Phase

/-- No two tasks read `Join` with one name. -/
def DistinctJoins (events : List Event) : Prop :=
  ∀ t u name, Event.join t name ∈ events → Event.join u name ∈ events → t = u

theorem DistinctJoins.of_append {first second : List Event} (h : DistinctJoins (first ++ second)) :
    DistinctJoins first :=
  fun t u name ht hu =>
    h t u name (List.mem_append_left _ ht) (List.mem_append_left _ hu)

theorem joinClient_named {clients : HashMap String TaskId} {got : Received} {name : String}
    (h : (joinClient clients got).named = some name) : got = .msg (.join name) := by
  unfold joinClient at h
  split at h
  · split at h
    · simp [Phase.named] at h
    · simp only [Phase.named, Option.some.injEq] at h
      rw [h]
  all_goals simp [Phase.named] at h

theorem named_of_setTask {s : Server} {t u : TaskId} {task : Task} {name : String}
    (h : ((s.setTask t task).task u).phase.named = some name)
    (hkeep : task.phase.named = some name → (s.task t).phase.named = some name) :
    (s.task u).phase.named = some name := by
  by_cases hu : u = t
  · subst hu
    exact hkeep (by simpa using h)
  · simpa [hu] using h

theorem named_of_shutDown {s : Server} {t : TaskId} {name : String}
    (h : (s.shutDown.task t).phase.named = some name) : (s.task t).phase.named = some name := by
  simp only [Server.shutDown] at h
  split at h
  · exact h
  · simp [Phase.named] at h

/-- A task comes to use a name by reading it in its first `Join`. -/
theorem named_of_moved {s s' : Server} {l : Label} (h : Moved s l s') {u : TaskId} {name : String}
    (hu : (s'.task u).phase.named = some name) :
    (s.task u).phase.named = some name ∨
      (s.task u).phase = .joining ∧ ∃ order, l = .recv u (.msg (.join name)) order := by
  cases h with
  | turnedAway | refused | reaped => exact .inl hu
  | refusalFailed | stopped => exact .inl (named_of_shutDown hu)
  | @joined t got order hphase =>
      by_cases hut : u = t
      · subst hut
        have hjoined : (joinClient s.clients got).named = some name := by simpa using hu
        obtain rfl := joinClient_named hjoined
        exact .inr ⟨hphase, order, rfl⟩
      · exact .inl (by simpa [hut] using hu)
  | delivered =>
      rw [Server.sendAll_phase] at hu
      exact .inl hu
  | undelivered =>
      have hsent := named_of_setTask hu (by simp [Phase.named])
      rw [Server.sendAll_phase] at hsent
      exact .inl hsent
  | answering hphase => exact .inl (named_of_setTask hu (by simp [Phase.named, hphase]))
  | dequeued hphase => exact .inl (named_of_setTask hu (by simp [Phase.named, hphase]))
  | inserted hphase => exact .inl (named_of_setTask hu (by simp [Phase.named, hphase]))
  | answered hphase => exact .inl (named_of_setTask hu (by simp [Phase.named, hphase]))
  | forwarded hphase => exact .inl (named_of_setTask hu (by simp [Phase.named, hphase]))
  | _ => exact .inl (named_of_setTask hu (by simp [Phase.named]))

variable {maxClients : ℕ} {trace : List (Server × Label)} {s s' : Server} {l : Label}

/-- A task that uses a name has read it in a `Join`. -/
theorem join_of_named (hrun : Run (Fires (step maxClients)) Server.init trace s) :
    ∀ {t : TaskId} {name : String}, (s.task t).phase.named = some name →
      Event.join t name ∈ history maxClients trace := by
  refine hrun.invariantTrace
    (I := fun trace s => ∀ {t name}, (s.task t).phase.named = some name →
      Event.join t name ∈ history maxClients trace) ?_ ?_
  · intro t name hname
    simp [Server.init, Phase.named] at hname
  · intro trace s l s' _ ih hstep t name hname
    rw [history_snoc]
    rcases named_of_moved (moved_of_step hstep) hname with hbefore | ⟨hjoining, order, rfl⟩
    · exact List.mem_append_left _ (ih hbefore)
    · apply List.mem_append_right
      simp [observe, hjoining]

theorem join_of_serving (hrun : Run (Fires (step maxClients)) Server.init trace s) {t : TaskId}
    {name : String} (hname : s.serving t = some name) :
    Event.join t name ∈ history maxClients trace :=
  join_of_named hrun (Phase.named_of_serving hname)

/-! ## Entries -/

/-- An entry belongs to the task that inserted it, in its loop or ended. -/
def EntriesKnown (s : Server) : Prop :=
  ∀ name t, s.clients.lookup name = some t → s.serving t = some name ∨ (s.task t).phase = .ended

/-- After a step an entry belongs to a handler in its loop, or it was there before and its
task has ended, either earlier or because this step dropped it. -/
theorem entry_of_step (hknown : EntriesKnown s) (hstep : step maxClients s l = some s')
    {name : String} {t : TaskId} (hlookup : s'.clients.lookup name = some t) :
    s'.serving t = some name ∨
      s.clients.lookup name = some t ∧ ((s.task t).phase = .ended ∨ Drops s l t) ∧
        (s'.task t).phase = .ended := by
  -- an entry that is kept belongs to a handler that is served or has ended
  have hended : (s.task t).phase = .ended → (s'.task t).phase = .ended :=
    ended_of_moved (moved_of_step hstep)
  have hkept : s.clients.lookup name = some t → s'.serving t = s.serving t →
      s'.serving t = some name ∨
        s.clients.lookup name = some t ∧ ((s.task t).phase = .ended ∨ Drops s l t) ∧
          (s'.task t).phase = .ended := by
    intro hbefore hserving
    rcases hknown name t hbefore with hserved | hgone
    · exact .inl (hserving.trans hserved)
    · exact .inr ⟨hbefore, .inl hgone, hended hgone⟩
  cases effect_of_step hstep with
  | quiet hclients hserving =>
      rw [hclients] at hlookup
      exact hkept hlookup (hserving t)
  | @insert u other _ hphase hclients hserving =>
      rw [hclients] at hlookup
      rcases HashMap.lookup_insert_eq_some.mp hlookup with ⟨rfl, rfl⟩ | ⟨-, hentry⟩
      · exact .inl (by simp [hserving])
      · -- who has an entry is not about to be inserted
        have htu : t ≠ u := by
          intro heq
          subst heq
          rcases hknown name t hentry with ht | ht <;> simp [Server.serving, hphase] at ht
        exact hkept hentry (by rw [hserving, if_neg htu])
  | @leave u other _ hother hclients hserving =>
      rw [hclients] at hlookup
      obtain ⟨hne, hentry⟩ := HashMap.lookup_erase_eq_some.mp hlookup
      have htu : t ≠ u := by
        intro heq
        subst heq
        rcases hknown name t hentry with ht | ht
        · exact hne (Option.some.inj (ht.symm.trans hother))
        · simp [Server.serving, ht] at hother
      exact hkept hentry (by rw [hserving, if_neg htu])
  | @drop u other hdrops hother hclients hdropped hserving =>
      rw [hclients] at hlookup
      -- the handler that is dropped leaves its entry behind
      by_cases htu : t = u
      · subst htu
        exact .inr ⟨hlookup, .inr hdrops, hdropped⟩
      · exact hkept hlookup (by rw [hserving, if_neg htu])
  | shutDown _ hclients _ =>
      rw [hclients] at hlookup
      simp at hlookup

private theorem entriesKnown (hrun : Run (Fires (step maxClients)) Server.init trace s) :
    EntriesKnown s :=
  hrun.invariant (fun name t h => by simp [Server.init] at h)
    fun _ _ _ hknown hstep _ _ hlookup =>
      (entry_of_step hknown hstep hlookup).imp_right fun hgone => hgone.2.2

/-- With distinct names no insert replaces the entry of a handler in its loop. -/
theorem owned_of_distinctJoins (hrun : Run (Fires (step maxClients)) Server.init trace s)
    (hdistinct : DistinctJoins (history maxClients trace)) : Owned s := by
  revert hdistinct
  refine hrun.invariantTrace
    (I := fun trace s => DistinctJoins (history maxClients trace) → Owned s) ?_ ?_
  · intro _ t name hname
    simp [Server.serving, Server.init] at hname
  · intro trace s l s' hrun ih hstep hdistinct
    rw [history_snoc] at hdistinct
    have hdistinct := hdistinct.of_append
    refine owned_step (ih hdistinct) (fun t name _ hphase target htarget => ?_) hstep
    rcases entriesKnown hrun name target htarget with hserving | hended
    · -- the handler in its loop and the one about to insert would share the name
      have hnamed : (s.task t).phase.named = some name := by simp [Phase.named, hphase]
      have hjoined := join_of_named hrun hnamed
      have := hdistinct t target name hjoined (join_of_serving hrun hserving)
      simp [Server.serving, ← this, hphase] at hserving
    · simp [Server.serving, hended]

/-! ## The map is clean exactly while no handler is dropped -/

/-- Every name in the map is the username of a handler in its loop. -/
def Clean (s : Server) : Prop :=
  ∀ name ∈ s.clients, ∃ t, s.serving t = some name

/-- Every entry is held by a handler in its loop, under the name of the entry. -/
def EntriesServed (s : Server) : Prop :=
  ∀ name t, s.clients.lookup name = some t → s.serving t = some name

theorem entriesServed_of_kept (hrun : Run (Fires (step maxClients)) Server.init trace s)
    (hkeeps : ∀ p ∈ trace, ∀ t, ¬ Drops p.1 p.2 t) : EntriesServed s := by
  refine (hrun.invariantUnder (C := fun s l => ∀ t, ¬ Drops s l t)
    (I := fun s => EntriesKnown s ∧ EntriesServed s) hkeeps ⟨?_, ?_⟩ ?_).2
  · intro name t h
    simp [Server.init] at h
  · intro name t h
    simp [Server.init] at h
  · rintro s l s' ⟨hknown, hserved⟩ hkeeps hstep
    refine ⟨fun name t hlookup =>
      (entry_of_step hknown hstep hlookup).imp_right fun hgone => hgone.2.2, ?_⟩
    intro name t hlookup
    rcases entry_of_step hknown hstep hlookup with hserving | ⟨hbefore, hended | hdrops, _⟩
    · exact hserving
    · have := hserved name t hbefore
      simp [Server.serving, hended] at this
    · exact absurd hdrops (hkeeps t)

/-- The entry of a dropped handler: its task has ended, and no other task reads its name. -/
def Abandoned (events : List Event) (s : Server) : Prop :=
  ∃ t name, s.clients.lookup name = some t ∧ (s.task t).phase = .ended ∧
    Event.join t name ∈ events

private theorem not_clean_of_abandoned (hrun : Run (Fires (step maxClients)) Server.init trace s)
    (hdistinct : DistinctJoins (history maxClients trace))
    (h : Abandoned (history maxClients trace) s) : ¬ Clean s := by
  obtain ⟨t, name, hlookup, hended, hjoin⟩ := h
  intro hclean
  obtain ⟨u, hserving⟩ := hclean name (Finmap.mem_of_lookup_eq_some hlookup)
  obtain rfl := hdistinct u t name (join_of_serving hrun hserving) hjoin
  simp [Server.serving, hended] at hserving

/-- A dropped handler leaves its entry behind. -/
theorem abandoned_of_drops (hrun : Run (Fires (step maxClients)) Server.init trace s)
    (hdistinct : DistinctJoins (history maxClients trace))
    (hstep : step maxClients s l = some s') {t : TaskId} (hdrops : Drops s l t) :
    Abandoned (history maxClients trace) s' := by
  have howned := owned_of_distinctJoins hrun hdistinct
  obtain ⟨name, hserving, rfl⟩ : ∃ name, s.serving t = some name ∧ s' = s.finish t := by
    cases hdrops with
    | @panicked _ name order hphase =>
        simp only [step, hphase] at hstep
        split at hstep <;> cases hstep
        exact ⟨name, by simp [Server.serving, hphase], rfl⟩
    | @unforwarded _ name msg hphase =>
        simp only [step, hphase] at hstep
        cases hstep
        exact ⟨name, by simp [Server.serving, hphase], rfl⟩
  exact ⟨t, name, howned t name hserving, by simp, join_of_serving hrun hserving⟩

/-- Nobody touches an abandoned entry again while `run_server` runs. -/
theorem abandoned_step (hrun : Run (Fires (step maxClients)) Server.init trace s)
    (hdistinct : DistinctJoins (history maxClients trace))
    (hstep : step maxClients s l = some s') (hruns : ¬ ShutsDown l)
    (h : Abandoned (history maxClients trace) s) : Abandoned (history maxClients trace) s' := by
  obtain ⟨t, name, hlookup, hended, hjoin⟩ := h
  have hother : ∀ {u other}, (s.task u).phase.named = some other → name ≠ other := by
    rintro u other hnamed rfl
    obtain rfl := hdistinct u t name (join_of_named hrun hnamed) hjoin
    simp [Phase.named, hended] at hnamed
  refine ⟨t, name, ?_, ended_of_moved (moved_of_step hstep) hended, hjoin⟩
  cases effect_of_step hstep with
  | quiet hclients _ => rw [hclients, hlookup]
  | @insert u other _ hphase hclients _ =>
      have hnamed : (s.task u).phase.named = some other := by simp [Phase.named, hphase]
      have hne := hother hnamed
      rw [hclients, Finmap.lookup_insert_of_ne _ hne, hlookup]
  | @leave u other _ hserving hclients _ =>
      rw [hclients, Finmap.lookup_erase_ne (hother (Phase.named_of_serving hserving)), hlookup]
  | drop _ _ hclients _ _ => rw [hclients, hlookup]
  | shutDown hl _ _ => exact absurd hl hruns

theorem stopped_of_shutsDown (hstep : step maxClients s l = some s') (hl : ShutsDown l) :
    s'.acceptor = .stopped := by
  rcases hl with rfl | rfl <;> simp only [step] at hstep <;> split at hstep <;> cases hstep <;> rfl

theorem stopped_step (hstep : step maxClients s l = some s') (h : s.acceptor = .stopped) :
    s'.acceptor = .stopped := by
  cases moved_of_step hstep with
  | turnedAway hl | spawned hl | refused hl | reaped hl => simp [h] at hl
  | refusalFailed | stopped => rfl
  | delivered | undelivered => exact (Server.sendAll_acceptor _).trans h
  | _ => exact h

/-- When `run_server` has returned, the map is gone and no task runs. -/
theorem over_of_stopped (hrun : Run (Fires (step maxClients)) Server.init trace s) :
    s.acceptor = .stopped →
      s.clients = ∅ ∧ ∀ t, (s.task t).phase = .absent ∨ (s.task t).phase = .ended := by
  refine hrun.invariant (I := fun s => s.acceptor = .stopped →
    s.clients = ∅ ∧ ∀ t, (s.task t).phase = .absent ∨ (s.task t).phase = .ended) ?_ ?_
  · intro hstopped
    simp [Server.init] at hstopped
  · intro s l s' ih hstep hstopped
    have hover : s.shutDown.clients = ∅ ∧
        ∀ t, (s.shutDown.task t).phase = .absent ∨ (s.shutDown.task t).phase = .ended := by
      refine ⟨rfl, fun t => ?_⟩
      simp only [Server.shutDown]
      split
      · next habsent => exact .inl habsent
      · exact .inr rfl
    -- a task that can move is neither absent nor ended
    have hidle : ∀ {t phase}, (s.task t).phase = phase → s.acceptor = .stopped →
        phase = .absent ∨ phase = .ended :=
      fun hphase hs => hphase ▸ (ih hs).2 _
    cases moved_of_step hstep with
    | turnedAway | refused => simp at hstopped
    | spawned hl | reaped hl => exact absurd (hl.symm.trans hstopped) (by simp)
    | refusalFailed | stopped => exact hover
    | delivered hphase | undelivered hphase =>
        have hs := (Server.sendAll_acceptor _).symm.trans hstopped
        simpa using hidle hphase hs
    | notJoined hphase =>
        rcases hphase with ⟨reply, hphase⟩ | ⟨name, hphase, -⟩ <;>
          simpa using hidle hphase hstopped
    | timedOut hphase | joined hphase | unread hphase | panicked hphase | answering hphase
    | dequeued hphase | orphaned hphase | inserted hphase | answered hphase | bailed hphase
    | forwarded hphase | unforwarded hphase => simpa using hidle hphase hstopped

theorem abandoned_of_run (hrun : Run (Fires (step maxClients)) Server.init trace s)
    (hdistinct : DistinctJoins (history maxClients trace)) (hruns : s.acceptor ≠ .stopped)
    (hdropped : ∃ p ∈ trace, ∃ t, Drops p.1 p.2 t) : Abandoned (history maxClients trace) s := by
  revert hdistinct hruns hdropped
  refine hrun.invariantTrace (I := fun trace s => DistinctJoins (history maxClients trace) →
    s.acceptor ≠ .stopped → (∃ p ∈ trace, ∃ t, Drops p.1 p.2 t) →
    Abandoned (history maxClients trace) s) ?_ ?_
  · rintro _ _ ⟨p, hp, _⟩
    cases hp
  · intro trace s l s' hrun ih hstep hdistinct hruns hdropped
    rw [history_snoc] at hdistinct
    have hdistinct := hdistinct.of_append
    have habandoned : Abandoned (history maxClients trace) s' := by
      obtain ⟨p, hp, t, hdrops⟩ := hdropped
      rcases List.mem_append.mp hp with hp | hp
      · refine abandoned_step hrun hdistinct hstep ?_ (ih hdistinct ?_ ⟨p, hp, t, hdrops⟩)
        · exact fun hl => hruns (stopped_of_shutsDown hstep hl)
        · exact fun hstopped => hruns (stopped_step hstep hstopped)
      · obtain rfl := List.mem_singleton.mp hp
        exact abandoned_of_drops hrun hdistinct hstep hdrops
    obtain ⟨t, name, hlookup, hended, hjoin⟩ := habandoned
    exact ⟨t, name, hlookup, hended, by rw [history_snoc]; exact List.mem_append_left _ hjoin⟩

/-! ## Every run -/

/-- **The clients map.**  With distinct names the map lists exactly handlers in their loop
if and only if no handler was dropped, that is, had its reader panic or the write of a
queued message fail, or the map is gone with `run_server`. -/
theorem clean_iff (hrun : Run (Fires (step maxClients)) Server.init trace s)
    (hdistinct : DistinctJoins (history maxClients trace)) :
    Clean s ↔ (∀ p ∈ trace, ∀ t, ¬ Drops p.1 p.2 t) ∨ s.acceptor = .stopped := by
  constructor
  · intro hclean
    by_contra hdropped
    push Not at hdropped
    obtain ⟨hdropped, hruns⟩ := hdropped
    exact not_clean_of_abandoned hrun hdistinct
      (abandoned_of_run hrun hdistinct hruns hdropped) hclean
  · rintro (hkeeps | hstopped) name hname
    · obtain ⟨t, hlookup⟩ := Finmap.mem_iff.mp hname
      exact ⟨t, entriesServed_of_kept hrun hkeeps name t hlookup⟩
    · rw [(over_of_stopped hrun hstopped).1] at hname
      exact absurd hname Finmap.notMem_empty

/-- Two clients have joined, and one of them has left. -/
theorem clean_iff_left :
    ∃ trace s, Run (Fires (step 2)) Server.init trace s ∧ "a" ∈ s.clients ∧ "b" ∉ s.clients ∧
      Clean s := by
  have start : Run (Fires (step 2)) Server.init [] Server.init := .nil
  have hrun := ((((((start.fire (.accept 0) rfl).fire (.recv 0 (.msg (.join "a")) []) rfl).fire
    (.wrote 0 true) rfl).fire (.accept 1) rfl).fire (.recv 1 (.msg (.join "b")) []) rfl).fire
    (.wrote 1 true) rfl).fire (.recv 1 .eof [("a", 0), ("b", 1)]) rfl
  refine ⟨_, _, hrun, by decide, by decide, (clean_iff hrun ?_).mpr (.inl ?_)⟩
  · intro t u name ht hu
    have hmem : ∀ {t name}, Event.join t name ∈ [Event.join 0 "a", .send 0 .welcome,
        .inserted 0 "a", .join 1 "b", .send 1 .welcome, .inserted 1 "b"] →
        t = if name = "a" then 0 else 1 := by
      intro t name hmem
      simp only [List.mem_cons, Event.join.injEq, reduceCtorEq, List.not_mem_nil, or_false,
        false_or] at hmem
      rcases hmem with ⟨rfl, rfl⟩ | ⟨rfl, rfl⟩ <;> decide
    exact (hmem ht).trans (hmem hu).symm
  · intro p hp t hdrops
    simp only [List.nil_append, List.cons_append, List.mem_cons, List.not_mem_nil, or_false] at hp
    rcases hp with rfl | rfl | rfl | rfl | rfl | rfl | rfl <;> cases hdrops

/-- A client whose socket breaks while a message is forwarded to it stays in the map. -/
theorem broken_client_stays_listed :
    ∃ trace s, Run (Fires (step 2)) Server.init trace s ∧
      DistinctJoins (history 2 trace) ∧ s.acceptor ≠ .stopped ∧ ¬ Clean s := by
  obtain ⟨trace, s, hrun, hp⟩ := exists_run_of_replay (step 2) Server.init
    [.accept 0, .recv 0 (.msg (.join "a")) [], .wrote 0 true,
      .accept 1, .recv 1 (.msg (.join "b")) [], .wrote 1 true,
      .recv 0 (.msg (.sendDM "b" "hello")) [("a", 0), ("b", 1)], .dequeue 1, .wrote 1 false]
    (fun r => decide (history 2 r.1 =
        [.join 0 "a", .send 0 .welcome, .inserted 0 "a", .join 1 "b", .send 1 .welcome,
          .inserted 1 "b", .request 0 (.sendDM "b" "hello"), .send 1 (.message "a" "hello")] ∧
      r.2.acceptor = .listening ∧ r.2.clients.lookup "b" = some 1 ∧
      (r.2.task 1).phase = .ended))
    (by decide +kernel)
  simp only [decide_eq_true_eq] at hp
  obtain ⟨hhistory, hlistening, hlookup, hended⟩ := hp
  have hdistinct : DistinctJoins (history 2 trace) := by
    rw [hhistory]
    intro t u name ht hu
    simp only [List.mem_cons, Event.join.injEq, reduceCtorEq, List.not_mem_nil, or_false,
      false_or] at ht hu
    rcases ht with ⟨rfl, rfl⟩ | ⟨rfl, rfl⟩ <;> rcases hu with ⟨rfl, h⟩ | ⟨rfl, h⟩ <;> simp_all
  exact ⟨trace, s, hrun, hdistinct, by simp [hlistening],
    not_clean_of_abandoned hrun hdistinct ⟨1, "b", hlookup, hended, by simp [hhistory]⟩⟩

end RustCourse.Lesson10
