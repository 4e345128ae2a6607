import RustCourse.Agreement
import RustCourse.Chat.Switchboard
import RustCourse.Lesson08.Frames
import RustCourse.Lesson08.Names

/-!
# The lesson 08 server is a chat room

Handlers serve requests at the same time, each under a read guard of the table, and each
writes to the connections of all the clients it has something for.  So two clients may be
told of two broadcasts in different orders, and the server is a `Room` only up to the order
of what comes from different sources.

The operations of the room are the moments at which a handler gets the table (`opsOf`), and
the state of a run is a `Switchboard`.  A handler that fails to write ends without its
`remove`, so its client stays in the table but is silent from then on (`Silent`).  Hence
what a client is told by another one, or by the server, never has a gap
(`told_by_sources`).
-/

namespace RustCourse.Lesson08

open Chat Groups Transition

/-! ## The room of a run -/

/-- What the step writes, and where to. -/
def written (s : Server) : Label → List (ThreadId × ServerToClientMsg)
  | .handler t (.wrote true) => ((s.phase t).writing t).toList
  | _ => []

/-- What was written to connection `c`. -/
def told (trace : List (Server × Label)) (c : ThreadId) : List Content :=
  contentsTo c (trace.flatMap fun p => written p.1 p.2)

/-- What the handler has still to write. -/
def Phase.unsent : Phase → List (ThreadId × ServerToClientMsg)
  | .serving _ _ acts _ => acts.filterMap Act.sent
  | _ => []

/-- The operations that a step makes on the room. -/
def opsOf (s : Server) : Label → List (Op String Content)
  | .handler t (.acquire _) =>
      match s.phase t with
      | .inserting name => [enter name]
      | .requesting name msg => [request name msg]
      | .leaving name => [.leave name]
      | _ => []
  | _ => []

/-- The room after the operations of a run. -/
def roomOf (trace : List (Server × Label)) : Room :=
  Group.empty.after (trace.flatMap fun p => opsOf p.1 p.2)

def switchboardOf (trace : List (Server × Label)) (s : Server) : Switchboard where
  clients := s.clients
  unsent t := (s.phase t).unsent
  told := told trace
  room := roomOf trace

/-- The handler that writes what comes from the source to connection `c` fails to write. -/
def Abandons (source : Option String) (c : ThreadId) (p : Server × Label) : Prop :=
  ∃ t name held acts bail, p.2 = .handler t (.wrote false) ∧
    p.1.phase t = .serving name held acts bail ∧ (source = some name ∨ source = none ∧ t = c)

variable {maxClients : ℕ} {trace : List (Server × Label)} {s s' : Server} {t u c : ThreadId}
  {action : Action} {l : Label} {name : String} {source : Option String}

@[simp] theorem told_snoc (trace : List (Server × Label)) (s : Server) (l : Label) :
    told (trace ++ [(s, l)]) c = told trace c ++ contentsTo c (written s l) := by
  simp [told]

@[simp] theorem roomOf_snoc (trace : List (Server × Label)) (s : Server) (l : Label) :
    roomOf (trace ++ [(s, l)]) = (roomOf trace).after (opsOf s l) := by
  simp [roomOf]

/-! ## Names that nobody has inserted -/

/-- A name that was found free is not in the table yet. -/
def PendingFree (s : Server) : Prop :=
  ∀ t name, (s.phase t).pending = some name → name ∉ s.clients

theorem Phase.username_of_pending {phase : Phase} (h : phase.pending = some name) :
    phase.username = some name := by
  cases phase with
  | checked other taken => cases taken <;> simp_all [pending, username]
  | _ => simp_all [pending, username, welcomed]

/-- A handler finds its name free, and keeps it until the insert. -/
theorem Moved.pending (h : Moved s t action s') (hname : (s'.phase t).pending = some name) :
    s'.clients = s.clients ∧ ((s.phase t).pending = some name ∨ name ∉ s.clients) := by
  cases h with
  | @joined got hphase =>
      simp only [Server.setPhase_phase, if_true] at hname
      unfold joinClient at hname
      split at hname <;> simp [Phase.pending] at hname
  | @received other got hphase =>
      simp only [Server.setPhase_phase, if_true] at hname
      cases got <;> simp [receive, Phase.pending] at hname
  | @check other order hphase hfree =>
      simp only [Server.setPhase_phase, if_true] at hname
      refine ⟨rfl, .inr ?_⟩
      by_cases hmem : other ∈ s.clients
      · simp [hmem, Phase.pending] at hname
      · simp only [hmem, decide_false, Phase.pending, Option.some.injEq] at hname
        rwa [← hname]
  | @served other held bail hphase => cases bail <;> simp [Phase.pending] at hname
  | free hphase | welcomed hphase =>
      refine ⟨rfl, .inl ?_⟩
      rw [hphase]
      simpa [Phase.pending] using hname
  | _ => simp [Phase.pending] at hname

theorem PendingFree.moved (h : PendingFree s) (hunique : Unique s) (hmoved : Moved s t action s') :
    PendingFree s' := by
  intro u name hpending
  by_cases hut : u = t
  · subst hut
    obtain ⟨hclients, hbefore | hfree⟩ := hmoved.pending hpending
    · rw [hclients]
      exact h u name hbefore
    · rwa [hclients]
  · rw [hmoved.phase_ne hut] at hpending
    have hfree := h u name hpending
    rcases hmoved.clients with hclients | ⟨other, hphase, hclients⟩ | ⟨other, -, hclients⟩
    · rwa [hclients]
    · have hne : name ≠ other := by
        rintro rfl
        refine hut (hunique.distinct u t name ?_ (by simp [hphase, Phase.username, Phase.welcomed]))
        exact Phase.username_of_pending hpending
      rw [hclients, Finmap.mem_insert]
      simp [hne, hfree]
    · rw [hclients, Finmap.mem_erase]
      exact fun hmem => hfree hmem.2

theorem pendingFree_of_run (hrun : Run (Fires (step maxClients)) Server.init trace s)
    (hunraced : ∀ p ∈ trace, Unraced p.1 p.2) : PendingFree s := by
  refine hrun.invariantTraceUnder (C := Unraced) (I := fun trace s =>
    (∀ p ∈ trace, Unraced p.1 p.2) → PendingFree s) hunraced ?_ ?_ hunraced
  · intro _ t name hpending
    simp [Server.init, Phase.pending] at hpending
  · intro trace s l s' hrun ih _ hstep hall
    have hearlier : ∀ p ∈ trace, Unraced p.1 p.2 := fun p hp => hall p (by simp [hp])
    have hfree := ih hearlier
    by_cases hl : ∃ t action, l = .handler t action
    · obtain ⟨t, action, rfl⟩ := hl
      exact hfree.moved (unique_of_run hrun hearlier) (moved_of_handlerStep hstep)
    · obtain ⟨hclients, hphase⟩ := env_of_step hrun hstep (by simpa using hl)
      intro t name hpending
      rw [hclients]
      rcases hphase t with hkept | ⟨-, hstarted⟩
      · exact hfree t name (hkept ▸ hpending)
      · simp [hstarted, Phase.pending] at hpending

/-! ## One step -/

/-- What a handler has been told before its insert. -/
def Phase.greeting : Phase → List Content
  | .inserting _ => [.welcome]
  | _ => []

/-- A client that is not in the table yet has been told nothing, or `Welcome`. -/
def Greeted (trace : List (Server × Label)) (s : Server) : Prop :=
  ∀ t, (s.phase t).entered = false → told trace t = (s.phase t).greeting

/-- How the switchboard of a run goes on in one step. -/
inductive Goes (trace : List (Server × Label)) (s : Server) (l : Label) (s' : Server) : Prop
  | quiet : switchboardOf (trace ++ [(s, l)]) s' = switchboardOf trace s → Goes trace s l s'
  | move : Switchboard.Move (switchboardOf trace s) (switchboardOf (trace ++ [(s, l)]) s') →
      Goes trace s l s'
  | lose {t : ThreadId} {name : String} {held : List String} {acts : List Act} {bail : Bool} :
      l = .handler t (.wrote false) → s.phase t = .serving name held acts bail →
      s'.phase t = .ended →
      switchboardOf (trace ++ [(s, l)]) s' = (switchboardOf trace s).lose t → Goes trace s l s'

/-- A step that writes nothing and leaves the table alone. -/
theorem Goes.of_quiet (hwritten : written s l = []) (hops : opsOf s l = [])
    (hclients : s'.clients = s.clients)
    (hunsent : ∀ u, (s'.phase u).unsent = (s.phase u).unsent) : Goes trace s l s' := by
  refine .quiet (Switchboard.ext hclients (funext hunsent) (funext fun c => ?_) ?_)
  · simp [switchboardOf, hwritten]
  · simp [switchboardOf, hops]

/-- What the others have still to write stays. -/
theorem Moved.unsent_update (hmoved : Moved s t action s') :
    (fun u => (s'.phase u).unsent) =
      Function.update (fun u => (s.phase u).unsent) t (s'.phase t).unsent := by
  refine Function.eq_update_iff.mpr ⟨rfl, fun u hu => ?_⟩
  rw [hmoved.phase_ne hu]

/-- The switchboard behind a step: every part of it goes on by what the step does. -/
theorem switchboardOf_snoc (trace : List (Server × Label)) (hmoved : Moved s t action s') :
    switchboardOf (trace ++ [(s, .handler t action)]) s' = {
      clients := s'.clients
      unsent := Function.update (switchboardOf trace s).unsent t (s'.phase t).unsent
      told := fun c => told trace c ++ contentsTo c (written s (.handler t action))
      room := (roomOf trace).after (opsOf s (.handler t action)) } :=
  Switchboard.ext rfl hmoved.unsent_update (funext fun _ => told_snoc ..) (roomOf_snoc ..)

/-- Nobody serves while the table is free to be changed. -/
theorem idle_of_writable (hrun : Run (Fires (step maxClients)) Server.init trace s)
    (hfree : s.Writable) (u : ThreadId) : (s.phase u).unsent = [] := by
  cases hphase : s.phase u with
  | serving name held acts bail =>
      have hreads := (hfree.2 u (lt_spawned hrun (by simp [hphase]))).2
      simp [hphase, Phase.reads] at hreads
  | _ => rfl

/-- The writes to a client that is not in the table. -/
theorem Goes.of_aside (hhanded : Handed s) (hmoved : Moved s t action s')
    (hentered : (s.phase t).entered = false) (msg : ServerToClientMsg)
    (hwritten : written s (.handler t action) = [(t, msg)])
    (hops : opsOf s (.handler t action) = []) (hclients : s'.clients = s.clients)
    (hunsent : (s'.phase t).unsent = (s.phase t).unsent) :
    Goes trace s (.handler t action) s' := by
  have hout : ∀ name, (switchboardOf trace s).clients.lookup name ≠ some t := by
    intro name hlookup
    have hgone := hhanded.entered name t hlookup
    rw [hentered] at hgone
    cases hgone
  refine .move ?_
  have hmove := @Switchboard.Move.aside (switchboardOf trace s) t msg.content hout
  rw [switchboardOf_snoc trace hmoved]
  convert hmove using 1
  simp [switchboardOf, hwritten, hops, hclients, hunsent, told_of_write]

theorem goes_of_moved (hrun : Run (Fires (step maxClients)) Server.init trace s)
    (hunique : Unique s) (hpending : PendingFree s) (hgreeted : Greeted trace s)
    (hmoved : Moved s t action s') : Goes trace s (.handler t action) s' := by
  have hhanded := handed hrun
  have hboard := switchboardOf_snoc trace hmoved
  -- a step that writes nothing and leaves the table alone
  have hquiet : written s (.handler t action) = [] → opsOf s (.handler t action) = [] →
      s'.clients = s.clients → (s'.phase t).unsent = (s.phase t).unsent →
      Goes trace s (.handler t action) s' := by
    intro hwritten hops hclients hself
    refine .of_quiet hwritten hops hclients fun u => ?_
    rw [congrFun hmoved.unsent_update u, hself, Function.update_eq_self]
  cases hmoved with
  | @joined got hphase =>
      refine hquiet rfl rfl rfl ?_
      simp only [Server.setPhase_phase, if_true, hphase]
      unfold joinClient
      split <;> rfl
  | @received name got hphase =>
      refine hquiet rfl rfl rfl ?_
      simp only [Server.setPhase_phase, if_true, hphase]
      cases got <;> rfl
  | wokenEarly _ hphase | woken _ hphase =>
      exact hquiet rfl rfl rfl (by simp [hphase, Phase.unsent])
  | check hphase | lock hphase =>
      exact hquiet rfl (by simp [opsOf, hphase]) rfl
        (by simp [hphase, Phase.unsent, List.filterMap_cons, Act.sent])
  | taken hphase | free hphase | entered hphase | unlock hphase | removed hphase =>
      exact hquiet rfl rfl rfl (by simp [hphase, Phase.unsent, List.filterMap_cons, Act.sent])
  | @served name held bail hphase =>
      refine hquiet rfl rfl rfl ?_
      cases bail <;> simp [hphase, Phase.unsent]
  | unwelcomed hphase => exact hquiet rfl rfl rfl (by simp [hphase, Phase.unsent])
  | @refused reply ok hphase =>
      cases ok with
      | false => exact hquiet rfl rfl rfl (by simp [hphase, Phase.unsent])
      | true =>
          exact .of_aside hhanded (.refused hphase) (by simp [hphase, Phase.entered]) reply
            (by simp [written, hphase, Phase.writing]) rfl rfl (by simp [hphase, Phase.unsent])
  | welcomed hphase =>
      exact .of_aside hhanded (.welcomed hphase) (by simp [hphase, Phase.entered]) .welcome
        (by simp [written, hphase, Phase.writing]) rfl rfl (by simp [hphase, Phase.unsent])
  -- the moves of the switchboard, one after the other
  | @insert name order hphase hfree =>
      refine .move ?_
      have hidle := idle_of_writable hrun hfree
      have hnew : ∀ other, s.clients.lookup other ≠ some t := by
        intro other hlookup
        have hgone := hhanded.entered other t hlookup
        simp [hphase, Phase.entered] at hgone
      have htold : told trace t = [.welcome] := by
        rw [hgreeted t (by simp [hphase, Phase.entered]), hphase, Phase.greeting]
      have hmove := Switchboard.Move.insert (b := switchboardOf trace s) hidle
        (hpending t name (by simp [hphase, Phase.pending])) hnew htold
      rw [hboard]
      convert hmove using 1
      simp [switchboardOf, written, opsOf, hphase, Phase.unsent]
  | @remove name order hphase hfree =>
      refine .move ?_
      have hmove := @Switchboard.Move.erase (switchboardOf trace s) name
        (idle_of_writable hrun hfree)
      rw [hboard]
      convert hmove using 1
      simp [switchboardOf, written, opsOf, hphase, Phase.unsent]
  | @serve name msg order hphase hfree horder =>
      refine .move ?_
      have hself : s.clients.lookup name = some t :=
        hunique.entry t name (by simp [hphase, Phase.registered])
      have hdeliveries := congrArg Response.deliveries (handleJoined_response hself horder msg)
      have hmove := Switchboard.Move.serve (b := switchboardOf trace s) hself
        (by simp [switchboardOf, hphase, Phase.unsent]) hdeliveries
      rw [hboard]
      convert hmove using 1
      simp [switchboardOf, written, opsOf, hphase, Phase.unsent]
  | @wrote name held connection msg rest bail hphase =>
      refine .move ?_
      have hnext : (switchboardOf trace s).unsent t =
          (connection, msg) :: rest.filterMap Act.sent := by
        simp only [switchboardOf, hphase, Phase.unsent, List.filterMap_cons, Act.sent]
      have hmove := Switchboard.Move.write hnext
      rw [hboard]
      convert hmove using 1
      simp [switchboardOf, written, opsOf, hphase, Phase.unsent, Phase.writing, told_of_write]
  | @broken name held connection msg rest bail hphase =>
      refine .lose rfl hphase (by simp) (hboard.trans ?_)
      simp [switchboardOf, written, opsOf, Phase.unsent, Switchboard.lose]

/-- The acceptor and the drop write to no client. -/
theorem goes_of_env (hrun : Run (Fires (step maxClients)) Server.init trace s)
    (hstep : step maxClients s l = some s') (henv : ∀ t action, l ≠ .handler t action) :
    written s l = [] ∧ Goes trace s l s' := by
  obtain ⟨hclients, hphase⟩ := env_of_step hrun hstep henv
  have hwritten : written s l = [] := by
    cases l with
    | handler t action => exact absurd rfl (henv t action)
    | acceptor | drop => rfl
  refine ⟨hwritten, .of_quiet hwritten ?_ hclients fun u => ?_⟩
  · cases l with
    | handler t action => exact absurd rfl (henv t action)
    | acceptor | drop => rfl
  · rcases hphase u with hkept | ⟨habsent, hstarted⟩
    · rw [hkept]
    · rw [habsent, hstarted]
      rfl

/-! ## What clients are told before they are in the table -/

/-- A handler writes to its own client before the insert, and then what it has to write. -/
theorem target_of_written {send : ThreadId × ServerToClientMsg}
    (h : send ∈ written s (.handler t action)) : send.1 = t ∨ send ∈ (s.phase t).unsent := by
  unfold written at h
  split at h
  · next u heq =>
      cases heq
      rw [Option.mem_toList] at h
      cases hphase : s.phase t with
      | serving name held acts bail =>
          rw [hphase] at h
          cases acts with
          | nil => cases h
          | cons act rest =>
              cases act with
              | write connection msg =>
                  cases h
                  right
                  simp [Phase.unsent, Act.sent]
              | lock | unlock => cases h
      | refusing | welcoming =>
          rw [hphase] at h
          cases h
          exact .inl rfl
      | _ =>
          rw [hphase] at h
          cases h
  · cases h

theorem Greeted.moved (h : Greeted trace s) (hhanded : Handed s)
    (hsound : (switchboardOf trace s).Sound) (hmoved : Moved s t action s') :
    Greeted (trace ++ [(s, .handler t action)]) s' := by
  intro u hentered
  rw [told_snoc]
  by_cases hut : u = t
  -- the handler itself: before its `insert` only it has written to its client
  · subst hut
    have hbefore : (s.phase u).entered = false := by
      by_contra hgone
      rw [Bool.not_eq_false] at hgone
      rw [hmoved.entered_mono hgone] at hentered
      cases hentered
    rw [h u hbefore]
    cases hmoved with
    | @joined got hphase =>
        simp only [Server.setPhase_phase, if_true, hphase]
        unfold joinClient
        split <;> rfl
    | check hphase | taken hphase | free hphase => simp [hphase, Phase.greeting, written]
    | welcomed hphase =>
        simp [hphase, Phase.greeting, written, Phase.writing, contentsTo_cons,
          ServerToClientMsg.content]
    | @received name got hphase => simp [hphase, Phase.entered] at hbefore
    | @served name held bail hphase => simp [hphase, Phase.entered] at hbefore
    | _ => simp [Phase.entered] at hentered
  · rw [hmoved.phase_ne hut] at hentered ⊢
    -- another handler only writes to clients in the table
    have hnone : contentsTo u (written s (.handler t action)) = [] := by
      rw [List.eq_nil_iff_forall_not_mem]
      intro content hcontent
      obtain ⟨send, hsend, rfl, -⟩ := mem_contentsTo.mp hcontent
      rcases target_of_written hsend with hown | hunsent
      · exact hut hown
      · obtain ⟨name, hlookup⟩ := hsound.targets t send hunsent
        rw [hhanded.entered name send.1 hlookup] at hentered
        cases hentered
    rw [hnone, List.append_nil, h u hentered]

theorem Goes.sound (h : Goes trace s l s') (hsound : (switchboardOf trace s).Sound) :
    (switchboardOf (trace ++ [(s, l)]) s').Sound := by
  cases h with
  | quiet hkept => rwa [hkept]
  | move hmove => exact hsound.move hmove
  | @lose t _ _ _ _ _ _ _ hloss =>
      rw [hloss]
      exact hsound.lose t

/-- The state of every run is a sound switchboard. -/
theorem sound_of_run (hrun : Run (Fires (step maxClients)) Server.init trace s)
    (hunraced : ∀ p ∈ trace, Unraced p.1 p.2) :
    (switchboardOf trace s).Sound ∧ Greeted trace s := by
  refine hrun.invariantTraceUnder (C := Unraced) (I := fun trace s =>
    (∀ p ∈ trace, Unraced p.1 p.2) → (switchboardOf trace s).Sound ∧ Greeted trace s)
    hunraced ?_ ?_ hunraced
  · intro _
    refine ⟨⟨rfl, ?_, ?_, ?_⟩, fun t _ => rfl⟩ <;>
      simp [switchboardOf, Server.init, Phase.unsent]
  · intro trace s l s' hrun ih _ hstep hall
    have hearlier : ∀ p ∈ trace, Unraced p.1 p.2 := fun p hp => hall p (by simp [hp])
    obtain ⟨hsound, hgreeted⟩ := ih hearlier
    by_cases hl : ∃ t action, l = .handler t action
    · obtain ⟨t, action, rfl⟩ := hl
      have hmoved := moved_of_handlerStep hstep
      have hgoes := goes_of_moved hrun (unique_of_run hrun hearlier)
        (pendingFree_of_run hrun hearlier) hgreeted hmoved
      exact ⟨hgoes.sound hsound, hgreeted.moved (handed hrun) hsound hmoved⟩
    · have henv : ∀ t action, l ≠ .handler t action := by simpa using hl
      obtain ⟨hwritten, hgoes⟩ := goes_of_env hrun hstep henv
      refine ⟨hgoes.sound hsound, fun t hentered => ?_⟩
      rw [told_snoc, hwritten, contentsTo_nil, List.append_nil]
      rcases (env_of_step hrun hstep henv).2 t with hkept | ⟨habsent, hstarted⟩
      · rw [hkept] at hentered ⊢
        exact hgreeted t hentered
      · rw [hgreeted t (by simp [habsent, Phase.entered]), habsent, hstarted]
        rfl

/-! ## Silence -/

/-- The handler that writes what comes from the source to connection `c` has ended, and its
name stays in the table. -/
def Silent (s : Server) (source : Option String) (c : ThreadId) : Prop :=
  match source with
  | some sender => sender ∈ s.clients ∧ ∀ t, (s.phase t).username ≠ some sender
  | none => s.phase c = .ended

/-- Whoever is silent has nothing to write. -/
theorem Silent.unsent_eq_nil (h : Silent s source c) (hunique : Unique s) (hhanded : Handed s)
    (hspeaker : (switchboardOf trace s).speaker source c = some t) : (s.phase t).unsent = [] := by
  cases source with
  | none =>
      obtain rfl : c = t := Option.some.inj hspeaker
      have hended : s.phase c = .ended := h
      rw [hended]
      rfl
  | some sender =>
      cases hphase : s.phase t with
      | serving name held acts bail =>
          have hregistered : (s.phase t).registered = some name := by
            simp [hphase, Phase.registered]
          have hname : name = sender :=
            hhanded.injective name sender t (hunique.entry t name hregistered) hspeaker
          exact absurd (Phase.username_of_registered (hname ▸ hregistered)) (h.2 t)
      | _ => rfl

/-- Silence does not end: a name in the table is not taken again, and only its handler would
remove it. -/
theorem Silent.step (h : Silent s source c)
    (hrun : Run (Fires (step maxClients)) Server.init trace s)
    (hstep : step maxClients s l = some s') : Silent s' source c := by
  by_cases hl : ∃ t action, l = .handler t action
  · obtain ⟨t, action, rfl⟩ := hl
    have hmoved := moved_of_handlerStep hstep
    cases source with
    | none =>
        have hended : s.phase c = .ended := h
        have hne : c ≠ t := by
          rintro rfl
          exact hmoved.phase_ne_ended hended
        exact (hmoved.phase_ne hne).trans hended
    | some sender =>
        obtain ⟨hmem, hunused⟩ := h
        -- the name keeps its entry, and nobody can take it
        constructor
        · rcases hmoved.clients with hclients | ⟨other, -, hclients⟩ | ⟨other, hphase, hclients⟩
          · rwa [hclients]
          · rw [hclients, Finmap.mem_insert]
            exact .inr hmem
          · have hne : sender ≠ other := by
              rintro rfl
              exact hunused t (by simp [hphase, Phase.username, Phase.welcomed])
            rw [hclients, Finmap.mem_erase]
            exact ⟨hne, hmem⟩
        · intro u husername
          by_cases hut : u = t
          · subst hut
            rcases hmoved.username husername with hbefore | ⟨-, hfree, -⟩
            · exact hunused u hbefore
            · exact hfree hmem
          · rw [hmoved.phase_ne hut] at husername
            exact hunused u husername
  · obtain ⟨hclients, hphase⟩ := env_of_step hrun hstep (by simpa using hl)
    cases source with
    | none =>
        have hended : s.phase c = .ended := h
        rcases hphase c with hkept | ⟨habsent, -⟩
        · exact hkept.trans hended
        · rw [hended] at habsent
          cases habsent
    | some sender =>
        refine ⟨hclients ▸ h.1, fun t husername => ?_⟩
        rcases hphase t with hkept | ⟨-, hstarted⟩
        · exact h.2 t (hkept ▸ husername)
        · simp [hstarted, Phase.username, Phase.welcomed] at husername

/-- A handler that fails to write is silent from then on. -/
theorem silent_of_loss (hunique : Unique s) (hhanded : Handed s) (hmoved : Moved s t action s')
    {held : List String} {acts : List Act} {bail : Bool}
    (hphase : s.phase t = .serving name held acts bail) (hended : s'.phase t = .ended)
    (hspeaker : (switchboardOf trace s).speaker source c = some t) :
    Silent s' source c ∧ (source = some name ∨ source = none ∧ t = c) := by
  cases source with
  | none =>
      cases hspeaker
      exact ⟨hended, .inr ⟨rfl, rfl⟩⟩
  | some sender =>
      have hregistered : (s.phase t).registered = some name := by simp [hphase, Phase.registered]
      have hentry := hunique.entry t name hregistered
      have hname : name = sender := hhanded.injective name sender t hentry hspeaker
      subst hname
      refine ⟨⟨?_, fun u husername => ?_⟩, .inl rfl⟩
      · rcases hmoved.clients with hclients | ⟨other, hinserting, -⟩ | ⟨other, hleaving, -⟩
        · rw [hclients]
          exact Finmap.mem_of_lookup_eq_some hentry
        · simp [hphase] at hinserting
        · simp [hphase] at hleaving
      · by_cases hut : u = t
        · rw [hut, hended] at husername
          simp [Phase.username, Phase.welcomed] at husername
        · rw [hmoved.phase_ne hut] at husername
          exact hut (hunique.distinct u t name husername
            (Phase.username_of_registered hregistered))

/-! ## The streams of a run -/

/-- The stream from the source to `c` is that of the inbox, or it was cut off for good. -/
def Heard (trace : List (Server × Label)) (s : Server) (name : String) (c : ThreadId)
    (source : Option String) : Prop :=
  (switchboardOf trace s).stream source c = fromSource source ((roomOf trace).inbox name) ∨
    (switchboardOf trace s).stream source c <+: fromSource source ((roomOf trace).inbox name) ∧
      Silent s source c ∧ ∃ p ∈ trace, Abandons source c p

theorem heard_of_run (hrun : Run (Fires (step maxClients)) Server.init trace s)
    (hunraced : ∀ p ∈ trace, Unraced p.1 p.2) :
    ∀ name c, s.clients.lookup name = some c → ∀ source, Heard trace s name c source := by
  refine hrun.invariantTraceUnder (C := Unraced) (I := fun trace s =>
    (∀ p ∈ trace, Unraced p.1 p.2) → ∀ name c, s.clients.lookup name = some c →
      ∀ source, Heard trace s name c source) hunraced ?_ ?_ hunraced
  · intro _ name c hlookup
    simp [Server.init] at hlookup
  · intro trace s l s' hrun ih _ hstep hall name c hlookup source
    have hearlier : ∀ p ∈ trace, Unraced p.1 p.2 := fun p hp => hall p (by simp [hp])
    have hunique := unique_of_run hrun hearlier
    have hafter := hrun.snoc hstep
    have hunique' := unique_of_run hafter hall
    obtain ⟨hsound, hgreeted⟩ := sound_of_run hrun hearlier
    have hgoes : Goes trace s l s' := by
      by_cases hl : ∃ t action, l = .handler t action
      · obtain ⟨t, action, rfl⟩ := hl
        exact goes_of_moved hrun hunique (pendingFree_of_run hrun hearlier) hgreeted
          (moved_of_handlerStep hstep)
      · exact (goes_of_env hrun hstep (by simpa using hl)).2
    have hcut : (∃ p ∈ trace, Abandons source c p) →
        ∃ p ∈ trace ++ [(s, l)], Abandons source c p := by
      rintro ⟨p, hp, habandons⟩
      exact ⟨p, List.mem_append_left _ hp, habandons⟩
    cases hgoes with
    | quiet hkept =>
        have hclients : s'.clients = s.clients := congrArg Switchboard.clients hkept
        rw [hclients] at hlookup
        have hroom : roomOf (trace ++ [(s, l)]) = roomOf trace := congrArg Switchboard.room hkept
        rcases ih hearlier name c hlookup source with hall | ⟨hinitial, hsilent, hcause⟩
        · exact .inl (by rw [hkept, hroom, hall])
        · exact .inr ⟨by rw [hkept, hroom]; exact hinitial, hsilent.step hrun hstep, hcut hcause⟩
    | move hmove =>
        -- what the room tells the client is what its stream grows by
        rcases Switchboard.grows_of_move hsound hmove hlookup source with hnew | ⟨hentry, hgrows⟩
        · exact .inl hnew
        obtain ⟨news, hstream, hinbox, hspeaks⟩ := hgrows
        have hinbox : fromSource source ((roomOf (trace ++ [(s, l)])).inbox name) =
            fromSource source ((roomOf trace).inbox name) ++ news := hinbox
        rcases ih hearlier name c hentry source with hall | ⟨hinitial, hsilent, hcause⟩
        · exact .inl (by rw [hstream, hinbox, hall])
        · have hsilent' := hsilent.step hrun hstep
          -- a stream that is silent has no speaker, so there is no news
          have hnone : news = [] := by
            by_contra hnews
            obtain ⟨t, hspeaker, hunsent⟩ := hspeaks hnews
            exact hunsent (hsilent'.unsent_eq_nil hunique' (handed hafter) hspeaker)
          rw [hnone, List.append_nil] at hstream hinbox
          exact .inr ⟨by rw [hstream, hinbox]; exact hinitial, hsilent', hcut hcause⟩
    | @lose t sender held acts bail hl hphase hended hloss =>
        subst hl
        have hmoved : Moved s t (.wrote false) s' := moved_of_handlerStep hstep
        have hclients : s'.clients = s.clients := congrArg Switchboard.clients hloss
        rw [hclients] at hlookup
        have hroom : roomOf (trace ++ [(s, .handler t (.wrote false))]) = roomOf trace :=
          congrArg Switchboard.room hloss
        have hstream := @Switchboard.stream_of_loss (switchboardOf trace s) c source t
        rw [← hloss] at hstream
        -- is it the speaker of this stream that gives up?
        by_cases hspeaker : (switchboardOf trace s).speaker source c = some t
        · obtain ⟨hsilent, hsource⟩ :=
            silent_of_loss hunique (handed hrun) hmoved hphase hended hspeaker
          refine .inr ⟨?_, hsilent, (s, .handler t (.wrote false)), by simp, t, sender, held, acts,
            bail, rfl, hphase, hsource⟩
          rw [hroom]
          rcases ih hearlier name c hlookup source with hall | ⟨hinitial, -, -⟩
          · rw [← hall]
            exact hstream.1
          · exact hstream.1.trans hinitial
        · have hkept := hstream.2 hspeaker
          rcases ih hearlier name c hlookup source with hall | ⟨hinitial, hsilent, hcause⟩
          · exact .inl (by rw [hkept, hroom, hall])
          · exact .inr ⟨by rw [hkept, hroom]; exact hinitial, hsilent.step hrun hstep, hcut hcause⟩

/-! ## What a client is told -/

/-- **What one source says is heard in order and without a gap.**  In every run without a raced
join the members of the room are the names in the table, and what was written to the
connection of a member from one source, and then what is still to be written, is an initial
piece of what its inbox has from that source.  It is all of it unless the handler that writes
for the source failed in a write. -/
theorem told_by_sources (hrun : Run (Fires (step maxClients)) Server.init trace s)
    (hunraced : ∀ p ∈ trace, Unraced p.1 p.2) :
    (roomOf trace).members = s.clients.keys ∧
      ∀ name c, s.clients.lookup name = some c → ∀ source,
        fromSource source (told trace c) ++ (switchboardOf trace s).pending source c <+:
            fromSource source ((roomOf trace).inbox name) ∧
          ((∀ p ∈ trace, ¬ Abandons source c p) →
            fromSource source (told trace c) ++ (switchboardOf trace s).pending source c =
              fromSource source ((roomOf trace).inbox name)) := by
  refine ⟨(sound_of_run hrun hunraced).1.members, fun name c hlookup source => ?_⟩
  rcases heard_of_run hrun hunraced name c hlookup source with hall | ⟨hinitial, -, p, hp, hcause⟩
  · have hall : fromSource source (told trace c) ++ (switchboardOf trace s).pending source c =
        fromSource source ((roomOf trace).inbox name) := hall
    exact ⟨by rw [hall], fun _ => hall⟩
  · exact ⟨hinitial, fun hnone => absurd hcause (hnone p hp)⟩

/-- A client whose pong is still to be written, since the writer of its connection is with the
handler of another client, who has just sent it a message. -/
theorem told_by_sources_ping :
    ∃ trace s, Run (Fires (step 2)) Server.init trace s ∧
      told trace 0 = [.welcome, .message "b" "hi"] ∧
      (switchboardOf trace s).pending none 0 = [.pong] ∧
      (roomOf trace).members = {"a", "b"} ∧
      fromSource none (told trace 0) ++ (switchboardOf trace s).pending none 0 <+:
        fromSource none ((roomOf trace).inbox "a") ∧
      fromSource (some "b") (told trace 0) ++ (switchboardOf trace s).pending (some "b") 0 <+:
        fromSource (some "b") ((roomOf trace).inbox "a") := by
  let table := [("a", 0), ("b", 1)]
  obtain ⟨trace, s, hrun, hp⟩ := exists_run_of_replay (step 2) Server.init
    (connects 0 ++ connects 1 ++ joins 0 "a" ++ joins 1 "b" ++
      [.handler 1 (.read (.msg (.sendDM "a" "hi"))), .handler 1 (.acquire table),
        .handler 1 (.acquire []), .handler 1 (.acquire []), .handler 0 (.read (.msg .ping)),
        .handler 0 (.acquire table), .handler 1 (.wrote true)])
    (fun r => decide ((∀ p ∈ r.1, unraced p = true) ∧
      told r.1 0 = [.welcome, .message "b" "hi"] ∧
      (switchboardOf r.1 r.2).pending none 0 = [.pong] ∧ r.2.clients.keys = {"a", "b"} ∧
      r.2.clients.lookup "a" = some 0))
    (by decide +kernel)
  obtain ⟨hsteps, htold, hpending, hkeys, hentry⟩ := of_decide_eq_true hp
  obtain ⟨hmembers, hsources⟩ := told_by_sources hrun (unraced_of_spawned hrun hsteps)
  exact ⟨trace, s, hrun, htold, hpending, hmembers.trans hkeys, (hsources "a" 0 hentry none).1,
    (hsources "a" 0 hentry (some "b")).1⟩

end RustCourse.Lesson08
