import RustCourse.Lesson08.Names

/-!
# When a client leaves the table

`handle_joined` removes its client from the table behind its loop.  The loop ends there
when the stream has ended and after a second `Join`, but an unreadable message and a
failed write, to the client itself or to the recipient of its request, leave
`handle_joined` through a `?`, past the `remove` (`Drops`).  `gone_iff` says that these are
the only ways for a client to stay in the table: if the names in `Join` are distinct, all
joined clients whose handlers have ended are gone if and only if no handler was dropped.

Two invariants carry this.  Without drops an entry belongs to a handler that still has its
`remove` ahead (`EntriesRegistered`).  With distinct names nobody else touches the entry of
a client (`lookup_of_other`), so the entry of a dropped handler stays forever.

The two are put together at the end of the run: a handler that was dropped is found in the
trace (`abandoned_of_drops`), and without one every entry still has a handler.
-/

namespace RustCourse.Lesson08

open Chat Transition

/-! ## Names and ways out -/

/-- Handler `t` reads `Join` with this name in `join_client`. -/
def Joins (p : Server × Label) (t : ThreadId) (name : String) : Prop :=
  p.1.phase t = .reading ∧ p.2 = .handler t (.read (.msg (.join name)))

/-- No two handlers read `Join` with one name. -/
def DistinctJoins (trace : List (Server × Label)) : Prop :=
  ∀ t u name, (∃ p ∈ trace, Joins p t name) → (∃ p ∈ trace, Joins p u name) → t = u

/-- Handler `t` has inserted its client under this name. -/
def Joined (trace : List (Server × Label)) (t : ThreadId) (name : String) : Prop :=
  ∃ p ∈ trace, p.1.phase t = .inserting name ∧ ∃ order, p.2 = .handler t (.acquire order)

/-- The step ends the handler of a joined client without the `remove`. -/
inductive Drops (s : Server) : Label → ThreadId → Prop
  | unreadable {t name} : s.phase t = .receiving name → Drops s (.handler t (.read .err)) t
  | broken {t name held connection msg rest bail} :
      s.phase t = .serving name held (.write connection msg :: rest) bail →
      Drops s (.handler t (.wrote false)) t

/-- The name is free again and no entry holds the writer of the client. -/
def Gone (s : Server) (t : ThreadId) (name : String) : Prop :=
  name ∉ s.clients ∧ ∀ other, s.clients.lookup other ≠ some t

/-- The name in the first `Join` of the client, while its handler knows it. -/
def Phase.asked : Phase → Option String
  | .checking name => some name
  | .checked name _ => some name
  | .welcoming name => some name
  | .inserting name => some name
  | .inserted name => some name
  | .receiving name => some name
  | .requesting name _ => some name
  | .serving name _ _ _ => some name
  | .leaving name => some name
  | .left name => some name
  | .absent => none
  | .reading => none
  | .refusing _ => none
  | .ended => none

theorem Phase.asked_of_registered {phase : Phase} {name : String}
    (h : phase.registered = some name) : phase.asked = some name := by
  cases phase <;> simp_all [registered, asked]

section Steps

variable {s s' : Server} {t u : ThreadId} {action : Action} {name other : String}

/-- A handler knows a name from the `Join` it read. -/
theorem Moved.asked (h : Moved s t action s') (hname : (s'.phase t).asked = some name) :
    (s.phase t).asked = some name ∨ Joins (s, .handler t action) t name := by
  cases h with
  | @joined got hphase =>
      simp only [Server.setPhase_phase, if_true] at hname
      unfold joinClient at hname
      split at hname <;> simp only [Phase.asked, Option.some.injEq, reduceCtorEq] at hname
      subst hname
      exact .inr ⟨hphase, rfl⟩
  | @received other got hphase =>
      simp only [Server.setPhase_phase, if_true] at hname
      left
      cases got <;> simp_all [receive, Phase.asked]
  | @served other held bail hphase =>
      left
      cases bail <;> simp_all [Phase.asked]
  | _ =>
      left
      simp_all [Phase.asked]

/-- A registered handler stays registered, or removes its entry, or is dropped. -/
theorem Moved.of_registered (h : Moved s t action s') (hname : (s.phase t).registered = some name) :
    (s'.phase t).registered = some name ∨ s'.clients = s.clients.erase name ∨
      Drops s (.handler t action) t := by
  cases h with
  | @received other got hphase =>
      simp only [hphase, Phase.registered, Option.some.injEq] at hname
      subst hname
      cases got with
      | msg msg => exact .inl (by simp [receive, Phase.registered])
      | err => exact .inr (.inr (.unreadable hphase))
      | eof => exact .inl (by simp [receive, Phase.registered])
  | @remove other order hphase =>
      simp only [hphase, Phase.registered, Option.some.injEq] at hname
      subst hname
      exact .inr (.inl rfl)
  | broken hphase => exact .inr (.inr (.broken hphase))
  | @served other held bail hphase =>
      left
      cases bail <;> simp_all [Phase.registered]
  | _ =>
      left
      simp_all [Phase.registered]

/-- A dropped handler was registered, and has ended. -/
theorem Drops.registered {l : Label} (h : Drops s l t) :
    ∃ name, (s.phase t).registered = some name := by
  cases h with
  | unreadable hphase => exact ⟨_, by rw [hphase]; rfl⟩
  | broken hphase => exact ⟨_, by rw [hphase]; rfl⟩

theorem Drops.step {maxClients : ℕ} {l : Label} (h : Drops s l t)
    (hstep : step maxClients s l = some s') :
    s'.phase t = .ended ∧ s'.clients = s.clients := by
  cases h with
  | unreadable hphase =>
      simp only [Lesson08.step, handlerStep, hphase, Option.some.injEq] at hstep
      simp [← hstep, receive]
  | broken hphase =>
      simp only [Lesson08.step, handlerStep, hphase, Option.some.injEq] at hstep
      simp [← hstep]

end Steps

/-! ## Who knows a name -/

variable {maxClients : ℕ} {trace : List (Server × Label)} {s s' : Server} {l : Label}
  {t u : ThreadId} {name : String}

theorem DistinctJoins.of_append {rest : List (Server × Label)}
    (h : DistinctJoins (trace ++ rest)) : DistinctJoins trace :=
  fun t u name ⟨p, hp, ht⟩ ⟨q, hq, hu⟩ =>
    h t u name ⟨p, List.mem_append_left _ hp, ht⟩ ⟨q, List.mem_append_left _ hq, hu⟩

theorem joins_of_asked (hrun : Run (Fires (step maxClients)) Server.init trace s) :
    (s.phase t).asked = some name → ∃ p ∈ trace, Joins p t name := by
  refine hrun.exists_cause (F := fun s => (s.phase t).asked = some name)
    (by simp [Server.init, Phase.asked]) fun trace s l s' hrun hstep hasked => ?_
  by_cases hl : ∃ u action, l = .handler u action
  · obtain ⟨u, action, rfl⟩ := hl
    have hmoved := moved_of_handlerStep hstep
    by_cases htu : t = u
    · subst htu
      exact hmoved.asked hasked
    · rw [hmoved.phase_ne htu] at hasked
      exact .inl hasked
  · rcases (env_of_step hrun hstep (by simpa using hl)).2 t with hphase | ⟨-, hphase⟩
    · rw [hphase] at hasked
      exact .inl hasked
    · simp [hphase, Phase.asked] at hasked

private theorem joins_of_joined (hrun : Run (Fires (step maxClients)) Server.init trace s) :
    Joined trace t name → ∃ p ∈ trace, Joins p t name := by
  rintro ⟨p, hp, hphase, -⟩
  obtain ⟨before, -, hinitial, hbefore, -⟩ := hrun.exists_before hp
  obtain ⟨q, hq, hjoins⟩ := joins_of_asked hbefore (by rw [hphase]; rfl)
  exact ⟨q, hinitial.subset hq, hjoins⟩

theorem Joined.snoc (h : Joined trace t name) (p : Server × Label) :
    Joined (trace ++ [p]) t name := by
  obtain ⟨q, hq, hinsert⟩ := h
  exact ⟨q, List.mem_append_left _ hq, hinsert⟩

/-- A registered handler has inserted its client. -/
theorem joined_of_registered (hrun : Run (Fires (step maxClients)) Server.init trace s) :
    (s.phase t).registered = some name → Joined trace t name := by
  refine hrun.exists_cause (F := fun s => (s.phase t).registered = some name)
    (by simp [Server.init, Phase.registered]) fun trace s l s' hrun hstep hregistered => ?_
  by_cases hl : ∃ u action, l = .handler u action
  · obtain ⟨u, action, rfl⟩ := hl
    have hmoved := moved_of_handlerStep hstep
    by_cases htu : t = u
    · subst htu
      rcases hmoved.registered hregistered with ⟨hbefore, -⟩ | ⟨hphase, hclients⟩
      · exact .inl hbefore
      · obtain ⟨order, rfl, -⟩ := hmoved.of_inserting hphase
        exact .inr ⟨hphase, order, rfl⟩
    · rw [hmoved.phase_ne htu] at hregistered
      exact .inl hregistered
  · rcases (env_of_step hrun hstep (by simpa using hl)).2 t with hphase | ⟨-, hphase⟩
    · rw [hphase] at hregistered
      exact .inl hregistered
    · simp [hphase, Phase.registered] at hregistered

/-! ## Entries -/

/-- **Without drops** an entry belongs to a handler that will remove it. -/
theorem registered_of_kept (hrun : Run (Fires (step maxClients)) Server.init trace s) :
    (∀ p ∈ trace, ∀ t, ¬ Drops p.1 p.2 t) →
      ∀ name t, s.clients.lookup name = some t → (s.phase t).registered = some name := by
  refine hrun.invariantTrace (I := fun trace s => (∀ p ∈ trace, ∀ t, ¬ Drops p.1 p.2 t) →
    ∀ name t, s.clients.lookup name = some t → (s.phase t).registered = some name)
    (by simp [Server.init]) ?_
  intro trace s l s' hrun ih hstep hkept name t hlookup
  have hbefore := ih fun p hp => hkept p (by simp [hp])
  by_cases hl : ∃ u action, l = .handler u action
  · obtain ⟨u, action, rfl⟩ := hl
    have hmoved := moved_of_handlerStep hstep
    -- an entry that was there before stays registered, unless it is removed now
    have hold : s.clients.lookup name = some t → (s'.phase t).registered = some name := by
      intro hentry
      have hregistered := hbefore name t hentry
      by_cases htu : t = u
      · subst htu
        rcases hmoved.of_registered hregistered with h | hremoved | hdrops
        · exact h
        · rw [hremoved] at hlookup
          exact absurd rfl (HashMap.lookup_erase_eq_some.mp hlookup).1
        · exact absurd hdrops (hkept (s, _) (by simp) t)
      · rw [hmoved.phase_ne htu, hregistered]
    rcases hmoved.clients with hclients | ⟨other, hphase, hclients⟩ | ⟨other, hphase, hclients⟩
    · rw [hclients] at hlookup
      exact hold hlookup
    · rw [hclients] at hlookup
      rcases HashMap.lookup_insert_eq_some.mp hlookup with ⟨rfl, rfl⟩ | ⟨-, hentry⟩
      · obtain ⟨order, -, rfl⟩ := hmoved.of_inserting hphase
        simp [Phase.registered]
      · exact hold hentry
    · rw [hclients] at hlookup
      exact hold (HashMap.lookup_erase_eq_some.mp hlookup).2
  · obtain ⟨hclients, hphases⟩ := env_of_step hrun hstep (by simpa using hl)
    rw [hclients] at hlookup
    have hregistered := hbefore name t hlookup
    rcases hphases t with hphase | ⟨habsent, -⟩
    · rw [hphase, hregistered]
    · simp [habsent, Phase.registered] at hregistered

/-- **With distinct names** nobody but its handler touches the entry of a client. -/
theorem lookup_of_other {action : Action}
    (hrun : Run (Fires (step maxClients)) Server.init trace s) (hdistinct : DistinctJoins trace)
    (hjoins : ∃ p ∈ trace, Joins p t name) (hmoved : Moved s u action s') (hut : u ≠ t)
    (hlookup : s.clients.lookup name = some t) : s'.clients.lookup name = some t := by
  have hother : ∀ other, (s.phase u).asked = some other → name ≠ other := by
    rintro other hasked rfl
    exact hut (hdistinct u t name (joins_of_asked hrun hasked) hjoins)
  rcases hmoved.clients with hclients | ⟨other, hphase, hclients⟩ | ⟨other, hphase, hclients⟩
  · rw [hclients, hlookup]
  · rw [hclients, Finmap.lookup_insert_of_ne _ (hother other (by rw [hphase]; rfl)), hlookup]
  · rw [hclients, Finmap.lookup_erase_ne (hother other (by rw [hphase]; rfl)), hlookup]

/-- With distinct names a registered handler has its entry. -/
theorem lookup_of_registered (hrun : Run (Fires (step maxClients)) Server.init trace s) :
    DistinctJoins trace →
      ∀ t name, (s.phase t).registered = some name → s.clients.lookup name = some t := by
  refine hrun.invariantTrace (I := fun trace s => DistinctJoins trace →
    ∀ t name, (s.phase t).registered = some name → s.clients.lookup name = some t)
    (by simp [Server.init, Phase.registered]) ?_
  intro trace s l s' hrun ih hstep hdistinct t name hregistered
  have hbefore := ih hdistinct.of_append
  by_cases hl : ∃ u action, l = .handler u action
  · obtain ⟨u, action, rfl⟩ := hl
    have hmoved := moved_of_handlerStep hstep
    by_cases hut : u = t
    · subst hut
      rcases hmoved.registered hregistered with ⟨hold, hclients⟩ | ⟨-, hclients⟩
      · rw [hclients, hbefore u name hold]
      · rw [hclients, Finmap.lookup_insert]
    · rw [hmoved.phase_ne (Ne.symm hut)] at hregistered
      have hjoins := joins_of_asked hrun (Phase.asked_of_registered hregistered)
      exact lookup_of_other hrun hdistinct.of_append hjoins hmoved hut (hbefore t name hregistered)
  · obtain ⟨hclients, hphases⟩ := env_of_step hrun hstep (by simpa using hl)
    rw [hclients]
    rcases hphases t with hphase | ⟨-, hphase⟩
    · exact hbefore t name (by rw [← hphase, hregistered])
    · simp [hphase, Phase.registered] at hregistered

/-- **A dropped handler** leaves its entry behind for good. -/
theorem abandoned_of_drops (hrun : Run (Fires (step maxClients)) Server.init trace s) :
    DistinctJoins trace → (∃ p ∈ trace, ∃ t, Drops p.1 p.2 t) →
      ∃ t name, Joined trace t name ∧ s.phase t = .ended ∧ s.clients.lookup name = some t := by
  refine hrun.invariantTrace (I := fun trace s => DistinctJoins trace →
    (∃ p ∈ trace, ∃ t, Drops p.1 p.2 t) →
      ∃ t name, Joined trace t name ∧ s.phase t = .ended ∧ s.clients.lookup name = some t)
    (by simp) ?_
  rintro trace s l s' hrun ih hstep hdistinct ⟨p, hp, t, hdrops⟩
  -- the handler was dropped earlier, or in this step
  rcases List.mem_append.mp hp with hp | hp
  · obtain ⟨t, name, hjoined, hended, hlookup⟩ := ih hdistinct.of_append ⟨p, hp, t, hdrops⟩
    refine ⟨t, name, hjoined.snoc _, ?_⟩
    by_cases hl : ∃ u action, l = .handler u action
    · obtain ⟨u, action, rfl⟩ := hl
      have hmoved := moved_of_handlerStep hstep
      -- a handler that has ended does not move any more
      have hut : u ≠ t := by
        rintro rfl
        exact hmoved.phase_ne_ended hended
      exact ⟨by rw [hmoved.phase_ne (Ne.symm hut), hended],
        lookup_of_other hrun hdistinct.of_append (joins_of_joined hrun hjoined) hmoved hut hlookup⟩
    · obtain ⟨hclients, hphases⟩ := env_of_step hrun hstep (by simpa using hl)
      rcases hphases t with hphase | ⟨habsent, -⟩
      · exact ⟨by rw [hphase, hended], by rw [hclients, hlookup]⟩
      · rw [hended] at habsent
        cases habsent
  · rw [List.mem_singleton] at hp
    -- this step drops it, and leaves the table as it is
    subst hp
    obtain ⟨name, hregistered⟩ := hdrops.registered
    obtain ⟨hended, hclients⟩ := hdrops.step hstep
    refine ⟨t, name, (joined_of_registered hrun hregistered).snoc _, hended, ?_⟩
    rw [hclients]
    exact lookup_of_registered hrun hdistinct.of_append t name hregistered

/-! ## Who is gone -/

/-- **When clients leave the table.**  With distinct names, every joined client whose
handler has ended is gone from the table if and only if no handler read an unreadable
message or failed to write in its loop. -/
theorem gone_iff (hrun : Run (Fires (step maxClients)) Server.init trace s)
    (hdistinct : DistinctJoins trace) :
    (∀ t name, Joined trace t name → s.phase t = .ended → Gone s t name) ↔
      ∀ p ∈ trace, ∀ t, ¬ Drops p.1 p.2 t := by
  constructor
  · intro hgone p hp t hdrops
    obtain ⟨u, name, hjoined, hended, hlookup⟩ :=
      abandoned_of_drops hrun hdistinct ⟨p, hp, t, hdrops⟩
    exact (hgone u name hjoined hended).2 name hlookup
  · intro hkept t name hjoined hended
    have hentries := registered_of_kept hrun hkept
    constructor
    · intro hmem
      obtain ⟨u, hlookup⟩ := Finmap.mem_iff.mp hmem
      have hregistered := hentries name u hlookup
      have hjoins := joins_of_asked hrun (Phase.asked_of_registered hregistered)
      obtain rfl := hdistinct u t name hjoins (joins_of_joined hrun hjoined)
      simp [hended, Phase.registered] at hregistered
    · intro other hlookup
      have hregistered := hentries other t hlookup
      simp [hended, Phase.registered] at hregistered

/-! ## Two runs -/

/-- The handler and the name, if the step reads `Join` in `join_client`. -/
def joinOf (p : Server × Label) : Option (ThreadId × String) :=
  match p.2 with
  | .handler t (.read (.msg (.join name))) =>
      if p.1.phase t = .reading then some (t, name) else none
  | _ => none

private theorem joinOf_eq_some {p : Server × Label} (h : Joins p t name) :
    joinOf p = some (t, name) := by
  rw [joinOf, h.2]
  exact if_pos h.1

private theorem distinctJoins_of_joins
    (h : ∀ p ∈ trace.filterMap joinOf, ∀ q ∈ trace.filterMap joinOf, p.2 = q.2 → p.1 = q.1) :
    DistinctJoins trace := by
  rintro t u name ⟨p, hp, ht⟩ ⟨q, hq, hu⟩
  exact h (t, name) (List.mem_filterMap.mpr ⟨p, hp, joinOf_eq_some ht⟩) (u, name)
    (List.mem_filterMap.mpr ⟨q, hq, joinOf_eq_some hu⟩) rfl

/-- A client joins and closes its connection. -/
theorem gone_iff_eof :
    ∃ trace s, Run (Fires (step 1)) Server.init trace s ∧ Joined trace 0 "a" ∧
      s.phase 0 = .ended ∧ Gone s 0 "a" := by
  obtain ⟨trace, s, hrun, hp⟩ := exists_run_of_replay (step 1) Server.init
    (connects 0 ++ joins 0 "a" ++
      [.handler 0 (.read .eof), .handler 0 (.acquire []), .handler 0 .release])
    (fun r => decide (
      (∀ p ∈ r.1.filterMap joinOf, ∀ q ∈ r.1.filterMap joinOf, p.2 = q.2 → p.1 = q.1) ∧
      r.1.map Prod.snd = connects 0 ++ joins 0 "a" ++
        [.handler 0 (.read .eof), .handler 0 (.acquire []), .handler 0 .release] ∧
      (∃ p ∈ r.1, p.1.phase 0 = .inserting "a" ∧ p.2 = .handler 0 (.acquire [])) ∧
      r.2.phase 0 = .ended))
    (by decide +kernel)
  obtain ⟨hdistinct, hlabels, ⟨p, hp, hphase, hl⟩, hended⟩ := of_decide_eq_true hp
  have hjoined : Joined trace 0 "a" := ⟨p, hp, hphase, [], hl⟩
  have hkept : ∀ p ∈ trace, ∀ t, ¬ Drops p.1 p.2 t := by
    rintro ⟨s, l⟩ hp t hdrops
    have hmem : l ∈ trace.map Prod.snd := List.mem_map_of_mem hp
    rw [hlabels] at hmem
    cases hdrops <;> simp [connects, joins] at hmem
  exact ⟨trace, s, hrun, hjoined, hended,
    (gone_iff hrun (distinctJoins_of_joins hdistinct)).mpr hkept 0 "a" hjoined hended⟩

/-- A client joins and sends a message that cannot be read: its handler ends, and its name
stays in the table. -/
theorem unreadable_message_leaves_name :
    ∃ trace s, Run (Fires (step 1)) Server.init trace s ∧ DistinctJoins trace ∧
      Joined trace 0 "a" ∧ s.phase 0 = .ended ∧ "a" ∈ s.clients ∧ ¬ Gone s 0 "a" := by
  obtain ⟨trace, s, hrun, hp⟩ := exists_run_of_replay (step 1) Server.init
    (connects 0 ++ joins 0 "a" ++ [.handler 0 (.read .err)])
    (fun r => decide (
      (∀ p ∈ r.1.filterMap joinOf, ∀ q ∈ r.1.filterMap joinOf, p.2 = q.2 → p.1 = q.1) ∧
      (∃ p ∈ r.1, p.1.phase 0 = .inserting "a" ∧ p.2 = .handler 0 (.acquire [])) ∧
      r.2.phase 0 = .ended ∧ "a" ∈ r.2.clients))
    (by decide +kernel)
  obtain ⟨hdistinct, ⟨p, hp, hphase, hl⟩, hended, hmem⟩ := of_decide_eq_true hp
  exact ⟨trace, s, hrun, distinctJoins_of_joins hdistinct, ⟨p, hp, hphase, [], hl⟩, hended, hmem,
    fun hgone => hgone.1 hmem⟩

end RustCourse.Lesson08
