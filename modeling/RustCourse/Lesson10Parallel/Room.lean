import RustCourse.Chat.Switchboard
import RustCourse.Lesson10Parallel.Progress
import RustCourse.Lesson10Parallel.Replies
import RustCourse.Welcome

/-!
# The lesson 10_parallel server is a chat room

As in lesson 08 the handlers serve requests at the same time and write to the connections of
all clients concerned, under a read guard of the table.  So the state of a run is a
`Switchboard`, too, and what comes from one source is told in its order.

Here a handler that fails to write gives up the rest of the request and removes its client,
so the name can be taken again.  What a client is told in a name may then have a gap, where
the rest of a request is missing; but it is never told out of order, nor twice
(`written_by_sources`).
-/

namespace RustCourse.Lesson10Parallel

open Chat Groups Transition

/-! ## The room of a run -/

/-- What the step writes, and where to. -/
def writes (s : Server) : Label → List (TaskId × ServerToClientMsg)
  | .wrote t true =>
      match s.phase t with
      | .doing work .holding => (work.write t).toList
      | _ => []
  | _ => []

/-- What was written to connection `c`. -/
def told (trace : List (Server × Label)) (c : TaskId) : List Content :=
  contentsTo c (trace.flatMap fun p => writes p.1 p.2)

/-- The operations that a step makes on the room. -/
def opsOf (s : Server) : Label → List (Op String Content)
  | .act t _ =>
      match s.phase t with
      | .doing (.insert name) .holding => [enter name]
      | .doing (.react name msg) .holding => [request name msg]
      | .doing (.leave name) .holding => [.leave name]
      | _ => []
  | _ => []

/-- The room after the operations of a run. -/
def roomOf (trace : List (Server × Label)) : Room :=
  Group.empty.after (trace.flatMap fun p => opsOf p.1 p.2)

def switchboardOf (trace : List (Server × Label)) (s : Server) : Switchboard where
  clients := s.clients
  unsent t := (s.phase t).unsent
  told := told trace
  room := roomOf trace

/-- The handler that writes what comes from the source to connection `c` fails to write, or is
cancelled before it has written all. -/
def Abandons (source : Option String) (c : TaskId) (p : Server × Label) : Prop :=
  ∃ t name connection msg rest bail stage, (p.2 = .wrote t false ∨ p.2 = .cancel t) ∧
    p.1.phase t = .doing (.send name connection msg rest bail) stage ∧
    (source = some name ∨ source = none ∧ t = c)

variable {maxClients : ℕ} {trace : List (Server × Label)} {s s' : Server} {t u c : TaskId}
  {l : Label} {name : String} {source : Option String}

@[simp] theorem told_snoc (trace : List (Server × Label)) (s : Server) (l : Label) :
    told (trace ++ [(s, l)]) c = told trace c ++ contentsTo c (writes s l) := by
  simp [told]

@[simp] theorem roomOf_snoc (trace : List (Server × Label)) (s : Server) (l : Label) :
    roomOf (trace ++ [(s, l)]) = (roomOf trace).after (opsOf s l) := by
  simp [roomOf]

/-! ## Clients that are not in the table -/

/-- Whoever has an entry has made its `insert`. -/
def Entered (s : Server) : Prop :=
  Registry.Listed (fun t => (s.phase t).entered = true) s.clients

/-- What a handler has told its client before the insert. -/
def Phase.greeting : Phase → List Content
  | .doing (.insert _) _ => [.welcome]
  | _ => []

/-- A client that is not in the table yet has been told nothing, or `Welcome`. -/
def Greeted (trace : List (Server × Label)) (s : Server) : Prop :=
  ∀ t, (s.phase t).entered = false → told trace t = (s.phase t).greeting

/-! ## One step -/

/-- How the switchboard of a run goes on in one step. -/
inductive Goes (trace : List (Server × Label)) (s : Server) (l : Label) (s' : Server) : Prop
  | quiet : switchboardOf (trace ++ [(s, l)]) s' = switchboardOf trace s → Goes trace s l s'
  | move : Switchboard.Move (switchboardOf trace s) (switchboardOf (trace ++ [(s, l)]) s') →
      Goes trace s l s'
  | lose {t : TaskId} {name : String} {connection : TaskId} {msg : ServerToClientMsg}
      {rest : List (TaskId × ServerToClientMsg)} {bail : Bool} {stage : Stage} :
      l = .wrote t false ∨ l = .cancel t →
      s.phase t = .doing (.send name connection msg rest bail) stage →
      switchboardOf (trace ++ [(s, l)]) s' = (switchboardOf trace s).lose t → Goes trace s l s'

/-- A step that writes nothing and leaves the table alone. -/
theorem Goes.of_quiet (hwrites : writes s l = []) (hops : opsOf s l = [])
    (hclients : s'.clients = s.clients)
    (hunsent : ∀ u, (s'.phase u).unsent = (s.phase u).unsent) : Goes trace s l s' := by
  refine .quiet (Switchboard.ext hclients (funext hunsent) (funext fun c => ?_) ?_)
  · simp [switchboardOf, hwrites]
  · simp [switchboardOf, hops]

/-- What the others have still to write stays. -/
theorem Moved.unsent_update (hmoved : Moved s t l s') :
    (fun u => (s'.phase u).unsent) =
      Function.update (fun u => (s.phase u).unsent) t (s'.phase t).unsent := by
  refine Function.eq_update_iff.mpr ⟨rfl, fun u hu => ?_⟩
  rw [hmoved.phase_ne hu]

/-- The switchboard behind a step: every part of it goes on by what the step does. -/
theorem switchboardOf_snoc (trace : List (Server × Label)) (hmoved : Moved s t l s') :
    switchboardOf (trace ++ [(s, l)]) s' = {
      clients := s'.clients
      unsent := Function.update (switchboardOf trace s).unsent t (s'.phase t).unsent
      told := fun c => told trace c ++ contentsTo c (writes s l)
      room := (roomOf trace).after (opsOf s l) } :=
  Switchboard.ext rfl hmoved.unsent_update (funext fun _ => told_snoc ..) (roomOf_snoc ..)

/-- Nobody sends while another handler has the write guard of the table. -/
theorem idle_of_exclusive (h : Locked s) {work : Work} (hphase : s.phase t = .doing work .holding)
    (hlock : work.lock t = .clients) (hmode : work.mode = .exclusive) (hreads : work.reads = false)
    (u : TaskId) : (s.phase u).unsent = [] := by
  cases hu : s.phase u with
  | doing other stage =>
      cases other with
      | send name connection msg rest bail =>
          have hne : t ≠ u := by
            rintro rfl
            rw [hphase] at hu
            cases hu
            cases hreads
          have hholds : LockId.clients ∈ (s.phase u).holds u := by
            simp [hu, Phase.holds, Work.reads]
          have howns : LockId.clients ∈ (s.phase t).holds t := by
            simp [hphase, Phase.holds, hlock]
          have hshared := (guards_exclude h howns hholds hne).2
          rw [h.line, hphase] at hshared
          simp [Phase.wants, hlock, hmode, hreads] at hshared
      | _ => rfl
  | _ => rfl

/-- The writes to a client that is not in the table. -/
theorem Goes.of_aside (hlisted : Entered s) (hmoved : Moved s t l s')
    (hentered : (s.phase t).entered = false) (msg : ServerToClientMsg)
    (hwrites : writes s l = [(t, msg)]) (hops : opsOf s l = []) (hclients : s'.clients = s.clients)
    (hunsent : (s'.phase t).unsent = (s.phase t).unsent) : Goes trace s l s' := by
  have hout : ∀ name, (switchboardOf trace s).clients.lookup name ≠ some t := by
    intro name hlookup
    have hgone : (s.phase t).entered = true := hlisted t name hlookup
    rw [hentered] at hgone
    cases hgone
  refine .move ?_
  have hmove := @Switchboard.Move.aside (switchboardOf trace s) t msg.content hout
  rw [switchboardOf_snoc trace hmoved]
  convert hmove using 1
  simp [switchboardOf, hwrites, hops, hclients, hunsent, told_of_write]

theorem goes_of_moved (hrun : Run (Fires (step maxClients)) Server.init trace s)
    (howned : Owned s) (hunraced : Unraced s l) (hgreeted : Greeted trace s)
    (hmoved : Moved s t l s') : Goes trace s l s' := by
  have hlisted : Entered s := listed_of_run hrun
  have hlocked := locked_of_run hrun
  have hboard := switchboardOf_snoc trace hmoved
  -- most steps change no call, no entry and no unsent message
  have hquiet : writes s l = [] → opsOf s l = [] → s'.clients = s.clients →
      (s'.phase t).unsent = (s.phase t).unsent → Goes trace s l s' := by
    intro hwrites hops hclients hself
    refine .of_quiet hwrites hops hclients fun u => ?_
    rw [congrFun hmoved.unsent_update u, hself, Function.update_eq_self]
  cases hmoved with
  | timedOut hphase => exact hquiet rfl rfl rfl (by simp [hphase, Phase.unsent])
  | joined hphase | received hphase =>
      refine hquiet rfl rfl rfl ?_
      have hbefore : (s.phase t).unsent = [] := by
        rw [hphase]
        rfl
      simp [hbefore]
  | @requested work hphase | @granted work hphase =>
      refine hquiet rfl rfl rfl ?_
      cases work <;> simp [hphase, Phase.unsent]
  | taken hphase | unused hphase | returned hphase | bailed hphase =>
      exact hquiet rfl (by simp [opsOf, hphase]) rfl (by simp [hphase, Phase.unsent])
  | unwelcomed hphase => exact hquiet rfl rfl rfl (by simp [hphase, Phase.unsent])
  -- a refusal is written to a client that is not in the room
  | @refused reply ok hphase =>
      cases ok with
      | false => exact hquiet rfl rfl rfl (by simp [hphase, Phase.unsent])
      | true =>
          exact .of_aside hlisted (.refused hphase) (by simp [hphase, Phase.entered]) reply
            (by simp [writes, hphase, Work.write]) rfl rfl (by simp [hphase, Phase.unsent])
  | welcomed hphase =>
      exact .of_aside hlisted (.welcomed hphase) (by simp [hphase, Phase.entered]) .welcome
        (by simp [writes, hphase, Work.write]) rfl rfl (by simp [hphase, Phase.unsent])
  -- the write guard is held, so nobody is sending while the entry is made
  | @inserted name order hphase =>
      refine .move ?_
      have hnew : ∀ other, s.clients.lookup other ≠ some t := by
        intro other hlookup
        have hgone : (s.phase t).entered = true := hlisted t other hlookup
        simp [hphase, Phase.entered] at hgone
      have htold : told trace t = [.welcome] := by
        rw [hgreeted t (by simp [hphase, Phase.entered]), hphase, Phase.greeting]
      have hmove := Switchboard.Move.insert (b := switchboardOf trace s)
        (idle_of_exclusive hlocked hphase rfl rfl rfl) (hunraced.notMem hphase) hnew htold
      rw [hboard]
      convert hmove using 1
      simp [switchboardOf, writes, opsOf, hphase, Phase.unsent]
  | @left name order hphase =>
      refine .move ?_
      have hmove := @Switchboard.Move.erase (switchboardOf trace s) name
        (idle_of_exclusive hlocked hphase rfl rfl rfl)
      rw [hboard]
      convert hmove using 1
      simp [switchboardOf, writes, opsOf, hphase, Phase.unsent]
  | @reacts name msg order hphase horder =>
      refine .move ?_
      have hself : s.clients.lookup name = some t :=
        howned t name (by simp [hphase, Phase.registered])
      have hdeliveries := congrArg Response.deliveries (reactClientMsg_response hself horder msg)
      have hmove := Switchboard.Move.serve (b := switchboardOf trace s) hself
        (by simp [switchboardOf, hphase, Phase.unsent]) hdeliveries
      rw [hboard]
      convert hmove using 1
      simp [switchboardOf, writes, opsOf, hphase, Plan.sends]
  | @sent name connection msg rest bail hphase =>
      refine .move ?_
      have hnext : (switchboardOf trace s).unsent t = (connection, msg) :: rest := by
        simp only [switchboardOf, hphase, Phase.unsent]
      have hmove := Switchboard.Move.write hnext
      rw [hboard]
      convert hmove using 1
      simp [switchboardOf, writes, opsOf, hphase, Work.write, told_of_write]
  -- the message that fails and the rest of the plan are lost to the stream
  | @unsent name connection msg rest bail hphase =>
      refine .lose (.inl rfl) hphase (hboard.trans ?_)
      simp [switchboardOf, writes, opsOf, Phase.unsent, Switchboard.lose]
  -- a task can be cancelled anywhere; only in mid-plan does that lose messages
  | cancelled hstopped hthere hrunning =>
      cases hphase : s.phase t with
      | doing work stage =>
          cases work with
          | send name connection msg rest bail =>
              refine .lose (.inr rfl) hphase (hboard.trans ?_)
              simp [switchboardOf, writes, opsOf, Phase.unsent, Switchboard.lose]
          | _ => exact hquiet rfl rfl rfl (by simp [hphase, Phase.unsent])
      | _ => exact hquiet rfl rfl rfl (by simp [hphase, Phase.unsent])

/-- The server as a whole writes to no client. -/
theorem goes_of_step (hrun : Run (Fires (step maxClients)) Server.init trace s)
    (howned : Owned s) (hunraced : Unraced s l) (hgreeted : Greeted trace s)
    (hstep : step maxClients s l = some s') : Goes trace s l s' := by
  cases stepped_of_step hstep with
  | @spawned t _ habsent _ =>
      refine .of_quiet rfl rfl rfl fun u => ?_
      by_cases hu : u = t
      · simp [hu, habsent, Phase.unsent]
      · simp [hu]
  | turnedAway | refusal | reaped | stopped => exact .of_quiet rfl rfl rfl fun _ => rfl
  | moved hmoved => exact goes_of_moved hrun howned hunraced hgreeted hmoved

/-! ## What clients are told before they are in the table -/

/-- A handler writes to its own client before the insert, and then what it has to write. -/
theorem target_of_writes {send : TaskId × ServerToClientMsg} (h : send ∈ writes s l) :
    ∃ t, send.1 = t ∧ (s.phase t).entered = false ∧ l = .wrote t true ∨
      send ∈ (s.phase t).unsent := by
  unfold writes at h
  split at h
  · next t =>
      refine ⟨t, ?_⟩
      split at h
      · next work hphase =>
          rw [Option.mem_toList] at h
          cases work with
          | send name connection msg rest bail =>
              cases h
              right
              simp [hphase, Phase.unsent]
          | refuse | welcome =>
              cases h
              exact .inl ⟨rfl, by simp [hphase, Phase.entered], rfl⟩
          | _ => cases h
      · cases h
  · cases h

/-- Nothing is written to a client that is not in the table by another handler. -/
theorem writes_of_not_entered (hlisted : Entered s) (hsound : (switchboardOf trace s).Sound)
    (hentered : (s.phase u).entered = false) (hother : l ≠ .wrote u true) :
    contentsTo u (writes s l) = [] := by
  rw [List.eq_nil_iff_forall_not_mem]
  intro content hcontent
  obtain ⟨send, hsend, rfl, -⟩ := mem_contentsTo.mp hcontent
  obtain ⟨t, ⟨rfl, -, hl⟩ | hunsent⟩ := target_of_writes hsend
  · exact hother hl
  · obtain ⟨name, hlookup⟩ := hsound.targets t send hunsent
    have hgone : (s.phase send.1).entered = true := hlisted send.1 name hlookup
    rw [hgone] at hentered
    cases hentered

theorem Greeted.moved (h : Greeted trace s) (hlisted : Entered s)
    (hsound : (switchboardOf trace s).Sound) (hmoved : Moved s t l s') :
    Greeted (trace ++ [(s, l)]) s' := by
  intro u hentered
  rw [told_snoc]
  -- the task that moves: it has not entered after, so it had not before
  by_cases hut : u = t
  · subst hut
    have hbefore : (s.phase u).entered = false := by
      by_contra hgone
      rw [Bool.not_eq_false] at hgone
      rw [hmoved.entered_mono hgone] at hentered
      cases hentered
    rw [h u hbefore]
    cases hmoved with
    | timedOut hphase | taken hphase | unused hphase =>
        simp [hphase, Phase.greeting, writes]
    | @joined got hphase =>
        simp only [Server.setPhase_phase, if_true, hphase]
        unfold joinClient
        split <;> rfl
    | @requested work hphase | @granted work hphase =>
        cases work <;> simp [hphase, Phase.greeting, writes]
    | welcomed hphase =>
        simp [hphase, Phase.greeting, writes, Work.write, contentsTo_cons,
          ServerToClientMsg.content]
    | @received name got hphase => simp [hphase, Phase.entered] at hbefore
    | reacts | sent => simp at hentered
    | _ => simp [Phase.entered] at hentered
  -- another task: nobody writes to a client that has not entered
  · have hother : l ≠ .wrote u true := by
      rintro rfl
      cases hmoved <;> exact hut rfl
    rw [hmoved.phase_ne hut] at hentered ⊢
    rw [writes_of_not_entered hlisted hsound hentered hother, List.append_nil, h u hentered]

theorem Greeted.step (h : Greeted trace s) (hlisted : Entered s)
    (hsound : (switchboardOf trace s).Sound) (hstep : step maxClients s l = some s') :
    Greeted (trace ++ [(s, l)]) s' := by
  cases stepped_of_step hstep with
  | @spawned t _ habsent _ =>
      intro u hentered
      rw [told_snoc]
      by_cases hu : u = t
      · subst hu
        rw [h u (by simp [habsent, Phase.entered])]
        simp [habsent, Phase.greeting, writes]
      · simp only [Server.setPhase_phase, hu, if_false] at hentered ⊢
        simpa [writes] using h u hentered
  | turnedAway | refusal | reaped | stopped =>
      intro u hentered
      rw [told_snoc]
      simpa [writes] using h u hentered
  | moved hmoved => exact h.moved hlisted hsound hmoved

theorem Goes.sound (h : Goes trace s l s') (hsound : (switchboardOf trace s).Sound) :
    (switchboardOf (trace ++ [(s, l)]) s').Sound := by
  cases h with
  | quiet hkept => rwa [hkept]
  | move hmove => exact hsound.move hmove
  | @lose t _ _ _ _ _ _ _ _ hloss =>
      rw [hloss]
      exact hsound.lose t

/-- The state of every run is a sound switchboard. -/
theorem sound_of_run (hrun : Run (Fires (step maxClients)) Server.init trace s)
    (hunraced : ∀ p ∈ trace, Unraced p.1 p.2) :
    (switchboardOf trace s).Sound ∧ Greeted trace s := by
  refine hrun.invariantTraceUnder (C := Unraced) (I := fun trace s =>
    (∀ p ∈ trace, Unraced p.1 p.2) → (switchboardOf trace s).Sound ∧ Greeted trace s)
    hunraced ?_ ?_ hunraced
  · intro _
    refine ⟨⟨rfl, ?_, ?_, ?_⟩, fun t _ => rfl⟩ <;>
      simp [switchboardOf, Server.init, Phase.unsent]
  · intro trace s l s' hrun ih hunraced hstep hall
    have hearlier : ∀ p ∈ trace, Unraced p.1 p.2 := fun p hp => hall p (by simp [hp])
    obtain ⟨hsound, hgreeted⟩ := ih hearlier
    have hgoes := goes_of_step hrun (owned_of_run hrun hearlier) hunraced hgreeted hstep
    exact ⟨hgoes.sound hsound, hgreeted.step (listed_of_run hrun) hsound hstep⟩

/-! ## The streams of a run -/

/-- The stream from the source to `c` is that of the inbox, with gaps where its handler gave
up. -/
def Heard (trace : List (Server × Label)) (s : Server) (name : String) (c : TaskId)
    (source : Option String) : Prop :=
  ((switchboardOf trace s).stream source c).Sublist
      (fromSource source ((roomOf trace).inbox name)) ∧
    ((switchboardOf trace s).stream source c = fromSource source ((roomOf trace).inbox name) ∨
      ∃ p ∈ trace, Abandons source c p)

theorem heard_of_run (hrun : Run (Fires (step maxClients)) Server.init trace s)
    (hunraced : ∀ p ∈ trace, Unraced p.1 p.2) :
    ∀ name c, s.clients.lookup name = some c → ∀ source, Heard trace s name c source := by
  -- the induction is on the run; the stream of `c` grows as the inbox of its name does
  refine hrun.invariantTraceUnder (C := Unraced) (I := fun trace s =>
    (∀ p ∈ trace, Unraced p.1 p.2) → ∀ name c, s.clients.lookup name = some c →
      ∀ source, Heard trace s name c source) hunraced ?_ ?_ hunraced
  · intro _ name c hlookup
    simp [Server.init] at hlookup
  · intro trace s l s' hrun ih hunraced hstep hall name c hlookup source
    have hearlier : ∀ p ∈ trace, Unraced p.1 p.2 := fun p hp => hall p (by simp [hp])
    have howned := owned_of_run hrun hearlier
    obtain ⟨hsound, hgreeted⟩ := sound_of_run hrun hearlier
    have hcut : (∃ p ∈ trace, Abandons source c p) →
        ∃ p ∈ trace ++ [(s, l)], Abandons source c p := by
      rintro ⟨p, hp, habandons⟩
      exact ⟨p, List.mem_append_left _ hp, habandons⟩
    cases goes_of_step hrun howned hunraced hgreeted hstep with
    | quiet hkept =>
        have hclients : s'.clients = s.clients := congrArg Switchboard.clients hkept
        rw [hclients] at hlookup
        have hroom : roomOf (trace ++ [(s, l)]) = roomOf trace := congrArg Switchboard.room hkept
        obtain ⟨hsublist, hexact⟩ := ih hearlier name c hlookup source
        rw [Heard, hkept, hroom]
        exact ⟨hsublist, hexact.imp_right hcut⟩
    | move hmove =>
        rcases Switchboard.grows_of_move hsound hmove hlookup source with hnew | ⟨hentry, hgrows⟩
        · exact ⟨hnew ▸ .refl _, .inl hnew⟩
        obtain ⟨news, hstream, hinbox, -⟩ := hgrows
        have hinbox : fromSource source ((roomOf (trace ++ [(s, l)])).inbox name) =
            fromSource source ((roomOf trace).inbox name) ++ news := hinbox
        obtain ⟨hsublist, hexact⟩ := ih hearlier name c hentry source
        rw [Heard, hstream, hinbox]
        refine ⟨hsublist.append (.refl _), ?_⟩
        rcases hexact with hexact | hcause
        · exact .inl (by rw [hexact])
        · exact .inr (hcut hcause)
    | @lose t sender connection msg rest bail stage hl hphase hloss =>
        have hclients : s'.clients = s.clients := congrArg Switchboard.clients hloss
        rw [hclients] at hlookup
        have hroom : roomOf (trace ++ [(s, l)]) = roomOf trace := congrArg Switchboard.room hloss
        have hstream := @Switchboard.stream_of_loss (switchboardOf trace s) c source t
        rw [← hloss] at hstream
        obtain ⟨hsublist, hexact⟩ := ih hearlier name c hlookup source
        rw [Heard, hroom]
        refine ⟨hstream.1.sublist.trans hsublist, ?_⟩
        -- the loss counts against `source` only if it is the task that speaks for it
        by_cases hspeaker : (switchboardOf trace s).speaker source c = some t
        · refine .inr ⟨(s, l), by simp, t, sender, connection, msg, rest, bail, stage, hl,
            hphase, ?_⟩
          cases source with
          | none => exact .inr ⟨rfl, (Option.some.inj hspeaker).symm⟩
          | some other =>
              have hentry := howned t sender (by simp [hphase, Phase.registered])
              exact .inl (congrArg some (hsound.injective other sender t hspeaker hentry))
        · rcases hexact with hexact | hcause
          · exact .inl ((hstream.2 hspeaker).trans hexact)
          · exact .inr (hcut hcause)

/-- **What one source says is heard in order.**  In every run without a raced join the members
of the room are the names in the table, and what was written to the connection of a member
from one source, and then what is still to be written, is in its inbox in the same order.  It
is all that the inbox has from that source unless a handler that writes for it failed in a
write or was cancelled. -/
theorem written_by_sources (hrun : Run (Fires (step maxClients)) Server.init trace s)
    (hunraced : ∀ p ∈ trace, Unraced p.1 p.2) :
    (roomOf trace).members = s.clients.keys ∧
      ∀ name c, s.clients.lookup name = some c → ∀ source,
        (fromSource source (told trace c) ++ (switchboardOf trace s).pending source c).Sublist
            (fromSource source ((roomOf trace).inbox name)) ∧
          ((∀ p ∈ trace, ¬ Abandons source c p) →
            fromSource source (told trace c) ++ (switchboardOf trace s).pending source c =
              fromSource source ((roomOf trace).inbox name)) := by
  refine ⟨(sound_of_run hrun hunraced).1.members, fun name c hlookup source => ?_⟩
  obtain ⟨hsublist, hexact⟩ := heard_of_run hrun hunraced name c hlookup source
  refine ⟨hsublist, fun hnone => ?_⟩
  rcases hexact with hexact | ⟨p, hp, hcause⟩
  · exact hexact
  · exact absurd hcause (hnone p hp)

/-- A broadcast that is given up before it reaches everybody, and one by another client that
has taken the name since. -/
theorem written_by_sources_gap :
    ∃ trace s, Run (Fires (step 4)) Server.init trace s ∧
      fromSource (some "a") (told trace 2) = [.message "a" "y"] ∧
      fromSource (some "a") ((roomOf trace).inbox "c") = [.message "a" "x", .message "a" "y"] ∧
      (fromSource (some "a") (told trace 2) ++
        (switchboardOf trace s).pending (some "a") 2).Sublist
          (fromSource (some "a") ((roomOf trace).inbox "c")) := by
  obtain ⟨trace, s, hrun, hp⟩ := exists_run_of_replay (step 4) Server.init
    ([.accept 0, .accept 1, .accept 2, .accept 3] ++ joins 0 "a" ++ joins 1 "b" ++ joins 2 "c" ++
      asks 0 (.broadcast "x") [("a", 0), ("b", 1), ("c", 2)] ++
      [.request 0, .grant 0, .wrote 0 false, .request 0, .grant 0, .act 0 []] ++ joins 3 "a" ++
      asks 3 (.broadcast "y") [("b", 1), ("c", 2), ("a", 3)] ++ sends 3 ++ sends 3)
    (fun r => decide ((∀ p ∈ r.1, Unraced p.1 p.2) ∧
      fromSource (some "a") (told r.1 2) = [.message "a" "y"] ∧
      fromSource (some "a") ((roomOf r.1).inbox "c") = [.message "a" "x", .message "a" "y"] ∧
      r.2.clients.lookup "c" = some 2))
    (by decide +kernel)
  obtain ⟨hunraced, htold, hinbox, hlookup⟩ := of_decide_eq_true hp
  have hsources := (written_by_sources hrun hunraced).2 "c" 2 hlookup (some "a")
  exact ⟨trace, s, hrun, htold, hinbox, hsources.1⟩

end RustCourse.Lesson10Parallel
