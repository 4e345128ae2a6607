import RustCourse.Lesson08.Steps

/-!
# Unique usernames

`join_client` looks the name up under a read guard, writes `Welcome` without a guard, and
inserts under a write guard it acquires later.  Between the look and the insert nothing
keeps another handler from passing the same look.  `unique_of_unraced` says that this is
the only way to lose: in every run in which no handler passes its look while another is
between the look and the insert for the same name, usernames are unique and every entry
stays with its handler.

The invariant is about `username`, the name a handler has from the moment its look
succeeded: all such names are distinct.

## Strategy

A step changes `username` in three ways: a look that succeeds sets it, a way out of the handler
unsets it, and everything else keeps it (`Moved.username`).  Only the first can break the
invariant, and there `Unraced` says that no other handler is pending with the name, and the
look itself that none is registered.  The table changes with `registered`
(`Moved.registered`), so ownership of entries is kept along.
-/

namespace RustCourse.Lesson08

open Chat Transition

namespace Phase

/-- The handler has found its name free and has not inserted it. -/
def pending : Phase → Option String
  | .checked name false => some name
  | .welcoming name => some name
  | .inserting name => some name
  | _ => none

/-- From the insert to the remove: the entry of this name should be the handler's. -/
def registered : Phase → Option String
  | .inserted name => some name
  | .receiving name => some name
  | .requesting name _ => some name
  | .serving name _ _ _ => some name
  | .leaving name => some name
  | _ => none

/-- The client was sent `Welcome` under this name and its handler has not ended. -/
def welcomed : Phase → Option String
  | .inserting name => some name
  | .inserted name => some name
  | .receiving name => some name
  | .requesting name _ => some name
  | .serving name _ _ _ => some name
  | .leaving name => some name
  | .left name => some name
  | _ => none

/-- The name of a handler from the moment it found it free to its end. -/
def username : Phase → Option String
  | .checked name false => some name
  | .welcoming name => some name
  | phase => phase.welcomed

private theorem username_of_welcomed {phase : Phase} {name : String}
    (h : phase.welcomed = some name) : phase.username = some name := by
  cases phase <;> simp_all [welcomed, username]

theorem username_of_registered {phase : Phase} {name : String}
    (h : phase.registered = some name) : phase.username = some name := by
  cases phase <;> simp_all [registered, username, welcomed]

/-- A name in use is pending, or in the table, or just removed. -/
theorem username_cases {phase : Phase} {name : String} (h : phase.username = some name) :
    phase.pending = some name ∨ phase.registered = some name ∨ phase = .left name := by
  cases phase with
  | checked other taken => cases taken <;> simp_all [username, pending, registered, welcomed]
  | _ => simp_all [username, pending, registered, welcomed]

end Phase

/-! ## Runs without a race -/

/-- The step does not find a name free that another handler has found free and not
inserted yet. -/
def Unraced (s : Server) (l : Label) : Prop :=
  ∀ t order name, l = .handler t (.acquire order) → s.phase t = .checking name →
    name ∉ s.clients → ∀ u, u ≠ t → (s.phase u).pending ≠ some name

/-- All names in use are distinct, and every registered handler has its entry. -/
structure Unique (s : Server) : Prop where
  distinct : ∀ t u name, (s.phase t).username = some name → (s.phase u).username = some name → t = u
  entry : ∀ t name, (s.phase t).registered = some name → s.clients.lookup name = some t

section Steps

variable {s s' : Server} {t u : ThreadId} {action : Action} {name : String}

/-- A handler comes to use a name by finding it free. -/
theorem Moved.username (h : Moved s t action s') (hname : (s'.phase t).username = some name) :
    (s.phase t).username = some name ∨
      s.phase t = .checking name ∧ name ∉ s.clients ∧ s.Readable ∧
        ∃ order, action = .acquire order := by
  cases h with
  | @joined got hphase =>
      simp only [Server.setPhase_phase, if_true] at hname
      unfold joinClient at hname
      split at hname <;> simp [Phase.username, Phase.welcomed] at hname
  | @received other got hphase =>
      simp only [Server.setPhase_phase, if_true] at hname
      left
      cases got <;> simp_all [receive, Phase.username, Phase.welcomed]
  | @check other order hphase hfree =>
      simp only [Server.setPhase_phase, if_true] at hname
      by_cases hmem : other ∈ s.clients
      · simp [hmem, Phase.username, Phase.welcomed] at hname
      · simp only [hmem, decide_false, Phase.username, Option.some.injEq] at hname
        subst hname
        exact .inr ⟨hphase, hmem, hfree, order, rfl⟩
  | @served other held bail hphase =>
      left
      cases bail <;> simp_all [Phase.username, Phase.welcomed]
  | _ =>
      left
      simp_all [Phase.username, Phase.welcomed]

/-- Every handler is registered by its insert. -/
theorem Moved.registered (h : Moved s t action s') (hname : (s'.phase t).registered = some name) :
    (s.phase t).registered = some name ∧ s'.clients = s.clients ∨
      s.phase t = .inserting name ∧ s'.clients = s.clients.insert name t := by
  cases h with
  | @joined got hphase =>
      simp only [Server.setPhase_phase, if_true] at hname
      unfold joinClient at hname
      split at hname <;> simp [Phase.registered] at hname
  | @received other got hphase =>
      simp only [Server.setPhase_phase, if_true] at hname
      left
      cases got <;> simp_all [receive, Phase.registered]
  | @served other held bail hphase =>
      left
      cases bail <;> simp_all [Phase.registered]
  | @insert other order hphase hfree =>
      simp only [Server.setPhase_phase, if_true, Phase.registered, Option.some.injEq] at hname
      subst hname
      exact .inr ⟨hphase, rfl⟩
  | _ =>
      left
      simp_all [Phase.registered]

/-- What a handler does to the table. -/
theorem Moved.clients (h : Moved s t action s') :
    s'.clients = s.clients ∨
      (∃ name, s.phase t = .inserting name ∧ s'.clients = s.clients.insert name t) ∨
      ∃ name, s.phase t = .leaving name ∧ s'.clients = s.clients.erase name := by
  cases h with
  | @insert name order hphase hfree => exact .inr (.inl ⟨name, hphase, rfl⟩)
  | @remove name order hphase hfree => exact .inr (.inr ⟨name, hphase, rfl⟩)
  | _ => exact .inl rfl

/-- A name is found free only if nobody uses it. -/
theorem Unique.unused (h : Unique s) (hunraced : Unraced s (.handler t action))
    (habsent : ∀ u : ℕ, s.spawned ≤ u → s.phase u = .absent) {order : List (String × ThreadId)}
    (haction : action = .acquire order) (hphase : s.phase t = .checking name)
    (hfree : name ∉ s.clients) (hreadable : s.Readable) (hu : u ≠ t) :
    (s.phase u).username ≠ some name := by
  intro husername
  rcases Phase.username_cases husername with hpending | hregistered | hleft
  · exact hunraced t order name (by rw [haction]) hphase hfree u hu hpending
  · exact hfree (Finmap.mem_of_lookup_eq_some (h.entry u name hregistered))
  · -- it still holds the write guard
    have hspawned : u < s.spawned := by
      by_contra hle
      simp [habsent u (Nat.le_of_not_lt hle)] at hleft
    simpa [hleft, Phase.writes] using hreadable u hspawned

theorem Unique.step_handler (h : Unique s) (hunraced : Unraced s (.handler t action))
    (habsent : ∀ u : ℕ, s.spawned ≤ u → s.phase u = .absent) (hmoved : Moved s t action s') :
    Unique s' := by
  have hdistinct : ∀ u name, u ≠ t → (s'.phase t).username = some name →
      (s'.phase u).username ≠ some name := by
    intro u name hu ht husername
    rw [hmoved.phase_ne hu] at husername
    rcases hmoved.username ht with hbefore | ⟨hphase, hfree, hreadable, order, haction⟩
    · exact hu (h.distinct u t name husername hbefore)
    · exact h.unused hunraced habsent haction hphase hfree hreadable hu husername
  constructor
  · intro v u name hv hu
    by_cases hvt : v = t
    · subst hvt
      by_contra hne
      exact hdistinct u name (Ne.symm hne) hv hu
    · by_cases hut : u = t
      · subst hut
        exact absurd hv (hdistinct v name hvt hu)
      · rw [hmoved.phase_ne hvt] at hv
        rw [hmoved.phase_ne hut] at hu
        exact h.distinct v u name hv hu
  · intro u name hu
    by_cases hut : u = t
    · subst hut
      rcases hmoved.registered hu with ⟨hbefore, hclients⟩ | ⟨-, hclients⟩
      · rw [hclients, h.entry u name hbefore]
      · rw [hclients, Finmap.lookup_insert]
    · rw [hmoved.phase_ne hut] at hu
      -- an insert or a remove of another handler is about another name
      have hother : ∀ other, (s.phase t).username = some other → name ≠ other := by
        rintro other ht rfl
        exact hut (h.distinct u t name (Phase.username_of_registered hu) ht)
      rcases hmoved.clients with hclients | ⟨other, hphase, hclients⟩ | ⟨other, hphase, hclients⟩
      · rw [hclients, h.entry u name hu]
      · have hne := hother other (by simp [hphase, Phase.username, Phase.welcomed])
        rw [hclients, Finmap.lookup_insert_of_ne _ hne, h.entry u name hu]
      · have hne := hother other (by simp [hphase, Phase.username, Phase.welcomed])
        rw [hclients, Finmap.lookup_erase_ne hne, h.entry u name hu]

end Steps

variable {maxClients : ℕ} {trace : List (Server × Label)} {s : Server}

/-! ## Unique names -/

theorem unique_of_run (hrun : Run (Fires (step maxClients)) Server.init trace s)
    (hunraced : ∀ p ∈ trace, Unraced p.1 p.2) : Unique s := by
  refine hrun.invariantTraceUnder (I := fun _ s => Unique s) hunraced ?_ ?_
  · constructor <;> simp [Server.init, Phase.username, Phase.registered, Phase.welcomed]
  · intro trace s l s' hrun hbefore hunraced hstep
    by_cases hl : ∃ t action, l = .handler t action
    · obtain ⟨t, action, rfl⟩ := hl
      exact hbefore.step_handler hunraced (absent_of_le hrun) (moved_of_handlerStep hstep)
    · obtain ⟨hclients, hphase⟩ := env_of_step hrun hstep (by simpa using hl)
      constructor
      · intro t u name ht hu
        rcases hphase t with hkept | ⟨-, hstarted⟩
        · rcases hphase u with hkept' | ⟨-, hstarted⟩
          · exact hbefore.distinct t u name (by rw [← hkept, ht]) (by rw [← hkept', hu])
          · simp [hstarted, Phase.username, Phase.welcomed] at hu
        · simp [hstarted, Phase.username, Phase.welcomed] at ht
      · intro u name hu
        rw [hclients]
        rcases hphase u with hkept | ⟨-, hstarted⟩
        · exact hbefore.entry u name (by rw [← hkept, hu])
        · simp [hstarted, Phase.registered] at hu

/-- **Usernames are unique** in every run in which no look for a name succeeds while
another handler is between its look and its insert for that name: no two live handlers
have been welcomed under one name, and from its insert to its remove the entry of a
handler's name is its own. -/
theorem unique_of_unraced (hrun : Run (Fires (step maxClients)) Server.init trace s)
    (hunraced : ∀ p ∈ trace, Unraced p.1 p.2) :
    (∀ t u name, (s.phase t).welcomed = some name → (s.phase u).welcomed = some name → t = u) ∧
      ∀ t name, (s.phase t).registered = some name → s.clients.lookup name = some t := by
  have h := unique_of_run hrun hunraced
  exact ⟨fun t u name ht hu => h.distinct t u name (Phase.username_of_welcomed ht)
    (Phase.username_of_welcomed hu), h.entry⟩

/-! ## Two runs -/

/-- `Unraced` of a step, as far as the handlers that were spawned can tell. -/
def unraced (p : Server × Label) : Bool :=
  match p.2 with
  | .handler t (.acquire _) =>
      match p.1.phase t with
      | .checking name => decide (name ∉ p.1.clients →
          ∀ u < p.1.spawned, u ≠ t → (p.1.phase u).pending ≠ some name)
      | _ => true
  | _ => true

/-- There are no others. -/
theorem unraced_of_spawned (hrun : Run (Fires (step maxClients)) Server.init trace s)
    (h : ∀ p ∈ trace, unraced p = true) : ∀ p ∈ trace, Unraced p.1 p.2 := by
  intro p hp t order name hl hphase hfree u hu hpending
  obtain ⟨before, -, -, hbefore, -⟩ := hrun.exists_before hp
  have hspawned : u < p.1.spawned := by
    refine lt_spawned hbefore fun habsent => ?_
    simp [habsent, Phase.pending] at hpending
  have hstep := h p hp
  simp only [unraced, hl, hphase, decide_eq_true_eq] at hstep
  exact hstep hfree u hspawned hu hpending

/-- Two clients join at the same time under two names, and a third one is refused, as it asks
for the first of them. -/
theorem unique_of_unraced_refused :
    ∃ trace s, Run (Fires (step 3)) Server.init trace s ∧
      (s.phase 0).registered = some "a" ∧ (s.phase 1).registered = some "b" ∧
      s.phase 2 = .refusing (.error "Username already taken") ∧
      (∀ t u name, (s.phase t).welcomed = some name → (s.phase u).welcomed = some name → t = u) ∧
      s.clients.lookup "a" = some 0 ∧ s.clients.lookup "b" = some 1 := by
  obtain ⟨trace, s, hrun, hp⟩ := exists_run_of_replay (step 3) Server.init
    (connects 0 ++ connects 1 ++ connects 2 ++
      [.handler 0 (.read (.msg (.join "a"))), .handler 1 (.read (.msg (.join "b"))),
        .handler 0 (.acquire []), .handler 0 .release, .handler 1 (.acquire []),
        .handler 1 .release, .handler 0 (.wrote true), .handler 1 (.wrote true),
        .handler 0 (.acquire []), .handler 0 .release, .handler 1 (.acquire []),
        .handler 1 .release, .handler 2 (.read (.msg (.join "a"))), .handler 2 (.acquire []),
        .handler 2 .release])
    (fun r => r.1.all unraced &&
      decide ((r.2.phase 0).registered = some "a" ∧ (r.2.phase 1).registered = some "b" ∧
        r.2.phase 2 = .refusing (.error "Username already taken")))
    (by decide +kernel)
  simp only [Bool.and_eq_true, List.all_eq_true, decide_eq_true_eq] at hp
  obtain ⟨hsteps, hfirst, hsecond, hthird⟩ := hp
  obtain ⟨hunique, hentry⟩ := unique_of_unraced hrun (unraced_of_spawned hrun hsteps)
  exact ⟨trace, s, hrun, hfirst, hsecond, hthird, hunique, hentry 0 "a" hfirst,
    hentry 1 "b" hsecond⟩

/-- Two handlers look for one name before either inserts it: both clients are welcomed, and
the second insert takes the entry of the first. -/
theorem raced_join_shares_name :
    ∃ trace s, Run (Fires (step 2)) Server.init trace s ∧
      (s.phase 0).welcomed = some "a" ∧ (s.phase 1).welcomed = some "a" ∧
      (s.phase 0).registered = some "a" ∧ s.clients.lookup "a" = some 1 := by
  obtain ⟨trace, s, hrun, hp⟩ := exists_run_of_replay (step 2) Server.init
    (connects 0 ++ connects 1 ++
      [.handler 0 (.read (.msg (.join "a"))), .handler 1 (.read (.msg (.join "a"))),
        .handler 0 (.acquire []), .handler 0 .release, .handler 1 (.acquire []),
        .handler 1 .release, .handler 0 (.wrote true), .handler 1 (.wrote true),
        .handler 0 (.acquire []), .handler 0 .release, .handler 1 (.acquire []),
        .handler 1 .release])
    (fun r => decide ((r.2.phase 0).welcomed = some "a" ∧ (r.2.phase 1).welcomed = some "a" ∧
      (r.2.phase 0).registered = some "a" ∧ r.2.clients.lookup "a" = some 1))
    (by decide +kernel)
  exact ⟨trace, s, hrun, by simpa using hp⟩

end RustCourse.Lesson08
