import RustCourse.Agreement
import RustCourse.Lesson08.Names
import RustCourse.Lesson10Parallel.Registry

/-!
# From when on a client can be reached

The handlers of lessons 08 and 10_parallel write `Welcome` first and insert the client into
the table afterwards, under a guard they have to acquire.  A client that reacts to its
`Welcome` can so be ahead of its own entry, and another handler that looks it up in between
does not find it.

`welcomed_iff_inserted` says that this is the only gap: in runs in which no `insert`
displaces the entry of another client, a client that was sent `Welcome`, and whose handler
has not left its loop, is in the table, and is reached or listed by every request of
another client that is processed then, if and only if its `insert` is over.

## Strategy

`Visible` says of one server that being in the table and being past the `insert` are the same;
it is proved from the ownership of entries (`owned_of_run`) and from the fact that nobody has
an entry before its `insert` (`listed_of_run`).  That a client in the table is reached is a
fact about `respond` and the same for both servers (`reaches_respond`).
-/

namespace RustCourse

open Chat Transition

/-- The answer to a request of `sender`, on connection `self`, reaches connection `c`, or
lists its name `n`, if the request is one that should. -/
def Reaches (response : Response ℕ) (sender : String) (self : ℕ) (n : String) (c : ℕ) :
    ClientToServerMsg → Prop
  | .sendDM recipient text => recipient = n → (c, .message sender text) ∈ response.deliveries
  | .broadcast text => (c, .message sender text) ∈ response.deliveries
  | .listUsers => ∃ users, (self, .userList users) ∈ response.deliveries ∧ n ∈ users
  | .join _ => True
  | .ping => True

/-- The protocol reaches everybody in the registry. -/
theorem reaches_respond {registry : HashMap String ℕ} {sender n : String} {self c : ℕ}
    (hself : registry.lookup sender = some self) (hentry : registry.lookup n = some c)
    (hother : self ≠ c) (msg : ClientToServerMsg) :
    Reaches (respond registry sender self msg) sender self n c msg := by
  have hname : n ≠ sender := by
    rintro rfl
    exact hother (Option.some.inj (hself.symm.trans hentry))
  cases msg with
  | join | ping => trivial
  | listUsers =>
      refine ⟨_, Multiset.mem_singleton_self _, ?_⟩
      exact Finmap.mem_keys.mpr (Finmap.mem_of_lookup_eq_some hentry)
  | sendDM recipient text =>
      rintro rfl
      simp [respond, hname, hentry]
  | broadcast text =>
      have hmem : (⟨n, c⟩ : Σ _ : String, ℕ) ∈ (registry.erase sender).entries := by
        rw [← Finmap.lookup_eq_some_iff, Finmap.lookup_erase_ne hname, hentry]
      exact Multiset.mem_map.mpr ⟨_, hmem, rfl⟩

end RustCourse

/-! ## Lesson 08 -/

namespace RustCourse.Lesson08

open Chat Transition

/-- The handler has left its loop. -/
def Phase.gone : Phase → Bool
  | .leaving _ => true
  | .left _ => true
  | .ended => true
  | _ => false

/-- `Welcome` was written to connection `c`, which joined as `n`. -/
def Welcomed (trace : List (Server × Label)) (c : ThreadId) (n : String) : Prop :=
  ∃ p ∈ trace, p.1.phase c = .welcoming n ∧ p.2 = .handler c (.wrote true)

/-- The step does not insert a name that is in the table. -/
def Undisplaced (s : Server) : Label → Prop
  | .handler t (.acquire _) =>
      match s.phase t with
      | .inserting name => name ∉ s.clients
      | _ => True
  | _ => True

instance (s : Server) : (l : Label) → Decidable (Undisplaced s l)
  | .handler t (.acquire _) =>
      match h : s.phase t with
      | .inserting name => decidable_of_iff (name ∉ s.clients) (by simp [Undisplaced, h])
      | .absent | .reading | .checking _ | .checked _ _ | .refusing _ | .welcoming _ | .inserted _
      | .receiving _ | .requesting _ _ | .serving _ _ _ _ | .leaving _ | .left _ | .ended =>
          isTrue (by simp [Undisplaced, h])
  | .handler _ (.read _) | .handler _ .wake | .handler _ .release | .handler _ (.wrote _)
  | .acceptor _ | .drop _ => isTrue trivial

/-- Connection `c` has the entry of its name `n`, and every request of another client that
is processed reaches or lists it. -/
structure Visible (s : Server) (c : ThreadId) (n : String) : Prop where
  entry : s.clients.lookup n = some c
  reached : ∀ t sender msg order, t ≠ c → s.phase t = .requesting sender msg →
    s.clients.Enumerates order →
    Reaches (handleJoined s.clients order sender msg).response sender t n c msg

variable {maxClients : ℕ} {trace : List (Server × Label)} {s s' : Server} {t c : ThreadId}
  {n : String} {action : Action} {l : Label}

theorem Moved.updated (h : Moved s t action s') (hundisplaced : Undisplaced s (.handler t action)) :
    Registry.Updated (fun u => (s.phase u).registered) (fun u => (s'.phase u).registered)
      s.clients t s'.clients := by
  cases h with
  | insert hphase hfree =>
      refine .inserted (by simpa [Undisplaced, hphase] using hundisplaced) fun name hname => ?_
      simpa [Phase.registered, eq_comm] using hname
  | remove hphase hfree =>
      exact .removed (by simp [hphase, Phase.registered]) (by simp [Phase.registered])
  | @joined got hphase =>
      refine .kept fun name hname => ?_
      simp only [Server.setPhase_phase, if_true] at hname
      unfold joinClient at hname
      split at hname <;> simp [Phase.registered] at hname
  | @received other got hphase =>
      refine .kept fun name hname => ?_
      cases got <;> simp_all [receive, Phase.registered]
  | @served other held bail hphase =>
      refine .kept fun name hname => ?_
      cases bail <;> simp_all [Phase.registered]
  | _ =>
      refine .kept fun name hname => ?_
      simp_all [Phase.registered]

/-- A client stays welcomed until its handler has ended. -/
theorem Moved.welcomed_mono (h : Moved s t action s')
    (hwelcomed : (s.phase t).welcomed = some n ∨ s.phase t = .ended) :
    (s'.phase t).welcomed = some n ∨ s'.phase t = .ended := by
  cases h with
  | @received other got hphase => cases got <;> simp_all [receive, Phase.welcomed]
  | @served other held bail hphase => cases bail <;> simp_all [Phase.welcomed]
  | _ => simp_all [Phase.welcomed]

theorem owned_of_run (hrun : Run (Fires (step maxClients)) Server.init trace s)
    (hundisplaced : ∀ p ∈ trace, Undisplaced p.1 p.2) :
    Registry.Owned (fun t => (s.phase t).registered) s.clients := by
  refine hrun.invariantTraceUnder (I := fun _ s =>
    Registry.Owned (fun t => (s.phase t).registered) s.clients) hundisplaced
    (by simp [Registry.Owned, Server.init, Phase.registered]) ?_
  intro trace s l s' hrun hbefore hundisplaced hstep
  by_cases hl : ∃ t action, l = .handler t action
  · obtain ⟨t, action, rfl⟩ := hl
    have hmoved := moved_of_handlerStep hstep
    exact hbefore.update (hmoved.updated hundisplaced) fun u hu => by rw [hmoved.phase_ne hu]
  · obtain ⟨hclients, hphase⟩ := env_of_step hrun hstep (by simpa using hl)
    intro u name hname
    change (s'.phase u).registered = some name at hname
    rw [hclients]
    rcases hphase u with hphase | ⟨-, hphase⟩
    · rw [hphase] at hname
      exact hbefore u name hname
    · simp [hphase, Phase.registered] at hname

theorem listed_of_run (hrun : Run (Fires (step maxClients)) Server.init trace s) :
    Registry.Listed (fun t => (s.phase t).entered = true) s.clients := by
  refine hrun.invariantTrace (I := fun _ s =>
    Registry.Listed (fun t => (s.phase t).entered = true) s.clients)
    (by simp [Registry.Listed, Server.init]) ?_
  intro trace s l s' hrun ih hstep
  by_cases hl : ∃ t action, l = .handler t action
  · obtain ⟨t, action, rfl⟩ := hl
    have hmoved := moved_of_handlerStep hstep
    refine ih.update (t := t) (fun u hu => ?_) ?_
    · by_cases hut : u = t
      · subst hut
        exact hmoved.entered_mono hu
      · rwa [hmoved.phase_ne hut]
    · cases hmoved with
      | insert => exact .inr (.inl ⟨_, by simp [Phase.entered], rfl⟩)
      | remove => exact .inr (.inr ⟨_, rfl⟩)
      | _ => exact .inl rfl
  · obtain ⟨hclients, hphase⟩ := env_of_step hrun hstep (by simpa using hl)
    intro u name hentry
    rw [hclients] at hentry
    rcases hphase u with hphase | ⟨habsent, -⟩
    · rw [hphase]
      exact ih u name hentry
    · simpa [habsent, Phase.entered] using ih u name hentry

theorem welcomed_of_run (hrun : Run (Fires (step maxClients)) Server.init trace s) :
    Welcomed trace c n → (s.phase c).welcomed = some n ∨ s.phase c = .ended := by
  refine hrun.invariantTrace (I := fun trace s =>
    Welcomed trace c n → (s.phase c).welcomed = some n ∨ s.phase c = .ended)
    (by simp [Welcomed]) ?_
  rintro trace s l s' hrun ih hstep ⟨p, hp, hphase, hl⟩
  rcases List.mem_append.mp hp with hp | hp
  · have hbefore := ih ⟨p, hp, hphase, hl⟩
    by_cases hhandler : ∃ action, l = .handler c action
    · obtain ⟨action, rfl⟩ := hhandler
      exact (moved_of_handlerStep hstep).welcomed_mono hbefore
    · rcases phase_of_other hrun hstep (by simpa using hhandler) with hkept | ⟨habsent, -⟩
      · rwa [hkept]
      · simp [habsent, Phase.welcomed] at hbefore
  · obtain rfl := List.mem_singleton.mp hp
    obtain rfl : l = .handler c (.wrote true) := hl
    have hmoved : Moved s c (.wrote true) s' := moved_of_handlerStep hstep
    cases hmoved <;> simp_all [Phase.welcomed]

/-- A client is visible from its `insert` on. -/
theorem visible_iff (hrun : Run (Fires (step maxClients)) Server.init trace s)
    (hundisplaced : ∀ p ∈ trace, Undisplaced p.1 p.2) (hwelcomed : Welcomed trace c n)
    (hloop : (s.phase c).gone = false) : Visible s c n ↔ s.phase c ≠ .inserting n := by
  have howned := owned_of_run hrun hundisplaced
  constructor
  · intro hvisible hphase
    have hentered : (s.phase c).entered = true := listed_of_run hrun c n hvisible.entry
    simp [hphase, Phase.entered] at hentered
  · intro hinserted
    have hregistered : (s.phase c).registered = some n := by
      rcases welcomed_of_run hrun hwelcomed with hwelcomed | hended
      · cases hphase : s.phase c <;> simp_all [Phase.welcomed, Phase.registered, Phase.gone]
      · simp [hended, Phase.gone] at hloop
    have hentry : s.clients.lookup n = some c := howned c n hregistered
    refine ⟨hentry, fun t sender msg order hother hphase horder => ?_⟩
    have hself : s.clients.lookup sender = some t :=
      howned t sender (by simp [hphase, Phase.registered])
    rw [handleJoined_response hself horder]
    exact reaches_respond hself hentry hother msg

end RustCourse.Lesson08

/-! ## Lesson 10_parallel -/

namespace RustCourse.Lesson10Parallel

open Chat Transition

/-- The handler has left its loop. -/
def Phase.gone : Phase → Bool
  | .doing (.leave _) _ => true
  | .ended => true
  | _ => false

/-- The handler has made its `insert`. -/
def Phase.entered : Phase → Bool
  | .receiving _ => true
  | .doing (.react _ _) _ => true
  | .doing (.send _ _ _ _ _) _ => true
  | .reacted _ _ => true
  | .doing (.leave _) _ => true
  | .ended => true
  | _ => false

/-- `Welcome` was written to connection `c`, which joined as `n`. -/
def Welcomed (trace : List (Server × Label)) (c : TaskId) (n : String) : Prop :=
  ∃ p ∈ trace, p.1.phase c = .doing (.welcome n) .holding ∧ p.2 = .wrote c true

/-- Connection `c` has the entry of its name `n`, and every request of another client that
is processed reaches or lists it. -/
structure Visible (s : Server) (c : TaskId) (n : String) : Prop where
  entry : s.clients.lookup n = some c
  reached : ∀ t sender msg order, t ≠ c → s.phase t = .doing (.react sender msg) .holding →
    s.clients.Enumerates order →
    Reaches (reactClientMsg s.clients order sender msg).response sender t n c msg

variable {maxClients : ℕ} {trace : List (Server × Label)} {s s' : Server} {t c : TaskId}
  {n : String} {l : Label}

/-- What becomes of a client after its `Welcome`. -/
def Past (n : String) (phase : Phase) : Prop :=
  (∃ stage, phase = .doing (.insert n) stage) ∨ phase.registered = some n ∨ phase = .ended

@[simp] theorem entered_reacting (name : String) (bail : Bool)
    (sends : List (TaskId × ServerToClientMsg)) : (reacting name bail sends).entered = true := by
  cases sends <;> rfl

theorem Moved.entered_mono (h : Moved s t l s') (hentered : (s.phase t).entered = true) :
    (s'.phase t).entered = true := by
  cases h with
  | @received name got hphase => cases got <;> simp [handleClient, Phase.entered]
  | @requested work hphase | @granted work hphase => cases work <;> simp_all [Phase.entered]
  | reacts | sent => simp
  | _ => simp_all [Phase.entered]

theorem Moved.past_mono (h : Moved s t l s') (hpast : Past n (s.phase t)) :
    Past n (s'.phase t) := by
  unfold Past at hpast ⊢
  cases h with
  | @received name got hphase => cases got <;> simp_all [handleClient, Phase.registered]
  | @requested work hphase | @granted work hphase => cases work <;> simp_all [Phase.registered]
  | @reacts name msg order hphase | @sent name connection msg rest bail hphase =>
      have hname : name = n := by simpa [hphase, Phase.registered] using hpast
      exact .inr (.inl (by simp [hname]))
  | _ => simp_all [Phase.registered]

theorem listed_of_run (hrun : Run (Fires (step maxClients)) Server.init trace s) :
    Registry.Listed (fun t => (s.phase t).entered = true) s.clients := by
  refine hrun.invariant (I := fun s =>
    Registry.Listed (fun t => (s.phase t).entered = true) s.clients)
    (by simp [Registry.Listed, Server.init]) ?_
  intro s l s' ih hstep
  cases stepped_of_step hstep with
  | @spawned t _ habsent _ =>
      intro u name hentry
      have hentered : (s.phase u).entered = true := ih u name hentry
      by_cases hu : u = t
      · simp [hu, habsent, Phase.entered] at hentered
      · simpa [hu] using hentered
  | turnedAway | refusal | reaped | stopped => exact ih
  | @moved t l s' hmoved =>
      refine ih.update (t := t) (fun u hu => ?_) ?_
      · by_cases hut : u = t
        · subst hut
          exact hmoved.entered_mono hu
        · rwa [hmoved.phase_ne hut]
      · rcases hmoved.clients with hclients | ⟨name, order, hphase, rfl, hclients⟩ |
            ⟨name, hphase, hclients⟩
        · exact .inl hclients
        · refine .inr (.inl ⟨name, ?_, hclients⟩)
          cases hmoved <;> simp_all [Phase.entered]
        · exact .inr (.inr ⟨name, hclients⟩)

theorem past_of_run (hrun : Run (Fires (step maxClients)) Server.init trace s) :
    Welcomed trace c n → Past n (s.phase c) := by
  refine hrun.invariantTrace (I := fun trace s => Welcomed trace c n → Past n (s.phase c))
    (by simp [Welcomed]) ?_
  rintro trace s l s' - ih hstep ⟨p, hp, hphase, hl⟩
  rcases List.mem_append.mp hp with hp | hp
  · have hbefore : Past n (s.phase c) := ih ⟨p, hp, hphase, hl⟩
    cases stepped_of_step hstep with
    | @spawned t _ habsent _ =>
        have hct : c ≠ t := by
          rintro rfl
          simp [habsent, Past, Phase.registered] at hbefore
        simpa [hct] using hbefore
    | turnedAway | refusal | reaped | stopped => exact hbefore
    | @moved t l s' hmoved =>
        by_cases hct : c = t
        · subst hct
          exact hmoved.past_mono hbefore
        · rwa [hmoved.phase_ne hct]
  · obtain rfl := List.mem_singleton.mp hp
    obtain rfl : l = .wrote c true := hl
    have hwrote : wrote s c true = some s' := hstep
    cases moved_of_wrote hwrote <;> simp_all [Past]

/-- A client is visible from its `insert` on. -/
theorem visible_iff (hrun : Run (Fires (step maxClients)) Server.init trace s)
    (hunraced : ∀ p ∈ trace, Unraced p.1 p.2) (hwelcomed : Welcomed trace c n)
    (hloop : (s.phase c).gone = false) :
    Visible s c n ↔ ∀ stage, s.phase c ≠ .doing (.insert n) stage := by
  have howned := owned_of_run hrun hunraced
  constructor
  · intro hvisible stage hphase
    have hentered : (s.phase c).entered = true := listed_of_run hrun c n hvisible.entry
    simp [hphase, Phase.entered] at hentered
  · intro hinserted
    have hentry : s.clients.lookup n = some c := by
      rcases past_of_run hrun hwelcomed with ⟨stage, hphase⟩ | hregistered | hended
      · exact absurd hphase (hinserted stage)
      · exact howned c n hregistered
      · simp [hended, Phase.gone] at hloop
    refine ⟨hentry, fun t sender msg order hother hphase horder => ?_⟩
    have hself : s.clients.lookup sender = some t :=
      howned t sender (by simp [hphase, Phase.registered])
    rw [reactClientMsg_response hself horder]
    exact reaches_respond hself hentry hother msg

end RustCourse.Lesson10Parallel

/-! ## Both servers -/

namespace RustCourse

open Chat Transition

/-- **Visible from the `insert` on.**  In every run of the two servers in which no `insert`
displaces an entry, take a client that was sent `Welcome` as `n` and whose handler has not
left its loop.  It has the entry of `n`, and every request of another client processed now
reaches or lists it, if and only if its own `insert` is over. -/
theorem welcomed_iff_inserted (maxClients : ℕ) :
    (∀ trace s,
      Run (Fires (Lesson08.step maxClients)) Lesson08.Server.init trace s →
      (∀ p ∈ trace, Lesson08.Undisplaced p.1 p.2) →
      ∀ c n, Lesson08.Welcomed trace c n → (s.phase c).gone = false →
        (Lesson08.Visible s c n ↔ s.phase c ≠ .inserting n)) ∧
    ∀ trace s,
      Run (Fires (Lesson10Parallel.step maxClients)) Lesson10Parallel.Server.init trace s →
      (∀ p ∈ trace, Lesson10Parallel.Unraced p.1 p.2) →
      ∀ c n, Lesson10Parallel.Welcomed trace c n → (s.phase c).gone = false →
        (Lesson10Parallel.Visible s c n ↔ ∀ stage, s.phase c ≠ .doing (.insert n) stage) :=
  ⟨fun _ _ hrun hundisplaced _ _ => Lesson08.visible_iff hrun hundisplaced,
    fun _ _ hrun hunraced _ _ => Lesson10Parallel.visible_iff hrun hunraced⟩

/-- In either server two clients join, and the first sends a message to the second: when its
handler processes the request, the second is visible, and the message reaches it. -/
theorem welcomed_iff_inserted_reached :
    (∃ trace s, Run (Fires (Lesson08.step 2)) Lesson08.Server.init trace s ∧
      Lesson08.Visible s 1 "b" ∧ s.phase 0 = .requesting "a" (.sendDM "b" "hi") ∧
      (1, .message "a" "hi") ∈ (Lesson08.handleJoined s.clients [("a", 0), ("b", 1)] "a"
        (.sendDM "b" "hi")).response.deliveries) ∧
    ∃ trace s, Run (Fires (Lesson10Parallel.step 2)) Lesson10Parallel.Server.init trace s ∧
      Lesson10Parallel.Visible s 1 "b" ∧
      s.phase 0 = .doing (.react "a" (.sendDM "b" "hi")) .holding ∧
      (1, .message "a" "hi") ∈ (Lesson10Parallel.reactClientMsg s.clients [("a", 0), ("b", 1)] "a"
        (.sendDM "b" "hi")).response.deliveries := by
  constructor
  -- `a` sends a DM to `b`, which was welcomed and inserted before
  · obtain ⟨trace, s, hrun, hp⟩ := exists_run_of_replay (Lesson08.step 2) Lesson08.Server.init
      (Lesson08.connects 0 ++ Lesson08.connects 1 ++ Lesson08.joins 0 "a" ++
        Lesson08.joins 1 "b" ++ [.handler 0 (.read (.msg (.sendDM "b" "hi")))])
      (fun r => decide ((∀ p ∈ r.1, Lesson08.Undisplaced p.1 p.2) ∧
        (∃ p ∈ r.1, p.1.phase 1 = .welcoming "b" ∧ p.2 = .handler 1 (.wrote true)) ∧
        r.2.phase 0 = .requesting "a" (.sendDM "b" "hi") ∧ r.2.phase 1 = .receiving "b" ∧
        r.2.clients.Enumerates [("a", 0), ("b", 1)]))
      (by decide +kernel)
    obtain ⟨hundisplaced, hwelcomed, hasking, hphase, horder⟩ := of_decide_eq_true hp
    have hphase : s.phase 1 = .receiving "b" := hphase
    have hvisible : Lesson08.Visible s 1 "b" :=
      ((welcomed_iff_inserted 2).1 trace s hrun hundisplaced 1 "b" hwelcomed
        (by rw [hphase]; rfl)).mpr (by simp [hphase])
    exact ⟨trace, s, hrun, hvisible, hasking,
      hvisible.reached 0 "a" _ _ (by decide) hasking horder rfl⟩
  · obtain ⟨trace, s, hrun, hp⟩ := exists_run_of_replay (Lesson10Parallel.step 2)
      Lesson10Parallel.Server.init
      ([.accept 0, .accept 1] ++ Lesson10Parallel.joins 0 "a" ++ Lesson10Parallel.joins 1 "b" ++
        [.recv 0 (.msg (.sendDM "b" "hi")), .request 0, .grant 0])
      (fun r => decide ((∀ p ∈ r.1, Lesson10Parallel.Unraced p.1 p.2) ∧
        (∃ p ∈ r.1, p.1.phase 1 = .doing (.welcome "b") .holding ∧ p.2 = .wrote 1 true) ∧
        r.2.phase 0 = .doing (.react "a" (.sendDM "b" "hi")) .holding ∧
        r.2.phase 1 = .receiving "b" ∧ r.2.clients.Enumerates [("a", 0), ("b", 1)]))
      (by decide +kernel)
    obtain ⟨hunraced, hwelcomed, hasking, hphase, horder⟩ := of_decide_eq_true hp
    have hphase : s.phase 1 = .receiving "b" := hphase
    have hvisible : Lesson10Parallel.Visible s 1 "b" :=
      ((welcomed_iff_inserted 2).2 trace s hrun hunraced 1 "b" hwelcomed
        (by rw [hphase]; rfl)).mpr (by simp [hphase])
    exact ⟨trace, s, hrun, hvisible, hasking,
      hvisible.reached 0 "a" _ _ (by decide) hasking horder rfl⟩

/-- A client is sent `Welcome`, and before its `insert` another one sends it a message: the
answer is that the user does not exist. -/
theorem welcomed_client_does_not_exist :
    (∃ trace s, Run (Fires (Lesson08.step 2)) Lesson08.Server.init trace s ∧
      Lesson08.Welcomed trace 1 "b" ∧ (s.phase 1).gone = false ∧
      s.clients.lookup "b" = none ∧
      s.phase 0 = .serving "a" ["a"]
        [.write 0 (.error "User b does not exist"), .unlock "a"] false) ∧
    ∃ trace s, Run (Fires (Lesson10Parallel.step 2)) Lesson10Parallel.Server.init trace s ∧
      Lesson10Parallel.Welcomed trace 1 "b" ∧ (s.phase 1).gone = false ∧
      s.clients.lookup "b" = none ∧
      s.phase 0 = .doing (.send "a" 0 (.error "User b does not exist") [] false) .asking := by
  constructor
  -- here `b` was welcomed but not inserted yet
  · obtain ⟨trace, s, hrun, hp⟩ := exists_run_of_replay (Lesson08.step 2) Lesson08.Server.init
      (Lesson08.connects 0 ++ Lesson08.connects 1 ++ Lesson08.joins 0 "a" ++
        [.handler 1 (.read (.msg (.join "b"))), .handler 1 (.acquire []), .handler 1 .release,
          .handler 1 (.wrote true), .handler 0 (.read (.msg (.sendDM "b" "hi"))),
          .handler 0 (.acquire [("a", 0)]), .handler 0 (.acquire [])])
      (fun r => decide (
        (∃ p ∈ r.1, p.1.phase 1 = .welcoming "b" ∧ p.2 = .handler 1 (.wrote true)) ∧
        (r.2.phase 1).gone = false ∧ r.2.clients.lookup "b" = none ∧
        r.2.phase 0 = .serving "a" ["a"]
          [.write 0 (.error "User b does not exist"), .unlock "a"] false))
      (by decide +kernel)
    have h := of_decide_eq_true hp
    exact ⟨trace, s, hrun, h⟩
  · obtain ⟨trace, s, hrun, hp⟩ := exists_run_of_replay (Lesson10Parallel.step 2)
      Lesson10Parallel.Server.init
      ([.accept 0, .accept 1] ++ Lesson10Parallel.joins 0 "a" ++
        Lesson10Parallel.greets 1 "b" ++ Lesson10Parallel.asks 0 (.sendDM "b" "hi") [("a", 0)])
      (fun r => decide (
        (∃ p ∈ r.1, p.1.phase 1 = .doing (.welcome "b") .holding ∧ p.2 = .wrote 1 true) ∧
        (r.2.phase 1).gone = false ∧ r.2.clients.lookup "b" = none ∧
        r.2.phase 0 =
          .doing (.send "a" 0 (.error "User b does not exist") [] false) .asking))
      (by decide +kernel)
    have h := of_decide_eq_true hp
    exact ⟨trace, s, hrun, h⟩

end RustCourse
