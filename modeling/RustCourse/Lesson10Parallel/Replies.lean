import RustCourse.Lesson10Parallel.Registry

/-!
# Replies of the lesson 10_parallel server

`react_client_msg` is given the name of the client that made the request, and finds the
writer for its reply by looking that name up.  So a reply goes to whoever has the entry of
the name, and if nobody has, there is no reply, and a second `Join` does not end the
handler.  In a run in which every client that is owed a reply has its own entry
(`Addressed`), and in particular in every run without a race, `answered_on_own_connection`
says that each reply is written once, in the order of the requests, to the connection the
request came from, and that a second `Join` ends the handler.

The invariant is a conservation law: what a handler owes is what it has written and what it
is about to write (`Owes`), and every step keeps it.
-/

namespace RustCourse.Lesson10Parallel

open Chat Transition

/-! ## What is owed, and what is written -/

/-- The replies among the messages of a handler. -/
def answers (sends : List (TaskId × ServerToClientMsg)) : List (TaskId × Content) :=
  (sends.filter fun p => !p.2.isMessage).map fun p => (p.1, p.2.content)

@[simp] theorem answers_nil : answers [] = [] := rfl

@[simp] theorem answers_append (sends sends' : List (TaskId × ServerToClientMsg)) :
    answers (sends ++ sends') = answers sends ++ answers sends' := by
  simp [answers]

private theorem answers_eq_nil {sends : List (TaskId × ServerToClientMsg)}
    (h : ∀ p ∈ sends, p.2.isMessage = true) : answers sends = [] := by
  rw [answers, List.map_eq_nil_iff, List.filter_eq_nil_iff]
  intro p hp
  simp [h p hp]

/-- The reply that the step owes to connection `t`: its handler processes a request. -/
def owed (t : TaskId) (p : Server × Label) : List (TaskId × Content) :=
  match p.2 with
  | .act u _ =>
      if u = t then
        match p.1.phase t with
        | .doing (.react name msg) .holding => ((replyTo p.1.clients name msg).map (t, ·)).toList
        | _ => []
      else []
  | _ => []

/-- What the handler of connection `t` writes in answer to a request, and where to. -/
def written (t : TaskId) (p : Server × Label) : List (TaskId × ServerToClientMsg) :=
  match p.2 with
  | .wrote u true =>
      if u = t then
        match p.1.phase t with
        | .doing (.send _ connection msg _ _) .holding => [(connection, msg)]
        | _ => []
      else []
  | _ => []

/-- What it has still to write. -/
def Phase.unsent : Phase → List (TaskId × ServerToClientMsg)
  | .doing (.send _ connection msg rest _) _ => (connection, msg) :: rest
  | _ => []

/-- The handler of connection `t` processes `Join` in its loop. -/
def SecondJoin (t : TaskId) (p : Server × Label) : Prop :=
  ∃ name other order, p.1.phase t = .doing (.react name (.join other)) .holding ∧
    p.2 = .act t order

/-- It does not go back to its loop. -/
def Phase.closing : Phase → Bool
  | .doing (.send _ _ _ _ bail) _ => bail
  | .reacted _ bail => bail
  | .doing (.leave _) _ => true
  | .ended => true
  | _ => false

/-- The request that the handler processes under the guard it has. -/
def Phase.request : Phase → Option (String × ClientToServerMsg)
  | .doing (.react name msg) .holding => some (name, msg)
  | _ => none

/-- A client whose request calls for a reply has the entry of its name. -/
def Addressed (s : Server) : Label → Prop
  | .act t _ => ∀ request ∈ (s.phase t).request,
      (replyTo s.clients request.1 request.2).isSome → s.clients.lookup request.1 = some t
  | _ => True

instance (s : Server) : (l : Label) → Decidable (Addressed s l)
  | .act t _ => inferInstanceAs (Decidable (∀ request ∈ (s.phase t).request, _ → _))
  | .accept _ | .refused _ | .reap _ | .stop | .cancel _ | .timeout _ | .recv _ _ | .request _
  | .grant _ | .wrote _ _ => isTrue trivial

/-- The write of the step, if there is one, succeeds. -/
def Succeeds : Label → Prop
  | .wrote _ ok => ok
  | .refused ok => ok
  | _ => True

instance (l : Label) : Decidable (Succeeds l) := by
  unfold Succeeds
  split <;> infer_instance

variable {maxClients : ℕ} {trace : List (Server × Label)} {s s' : Server} {t u : TaskId}
  {l : Label}

/-- A reply is owed to the connection of the request. -/
theorem fst_of_owed {p : Server × Label} {q : TaskId × Content} (h : q ∈ owed t p) : q.1 = t := by
  unfold owed at h
  split at h
  · split at h
    · split at h
      · obtain ⟨reply, -, rfl⟩ := Option.map_eq_some_iff.mp (Option.mem_toList.mp h)
        rfl
      · cases h
    · cases h
  · cases h

theorem Addressed.own {order : List (String × TaskId)} {name : String} {msg : ClientToServerMsg}
    (h : Addressed s (.act t order)) (hphase : s.phase t = .doing (.react name msg) .holding)
    (hreply : (replyTo s.clients name msg).isSome) : s.clients.lookup name = some t :=
  h (name, msg) (by rw [hphase]; rfl) hreply

/-- Without a race, everybody has its own entry. -/
theorem addressed_of_unraced (hrun : Run (Fires (step maxClients)) Server.init trace s)
    (hunraced : ∀ p ∈ trace, Unraced p.1 p.2) : Addressed s l := by
  cases l with
  | act t order =>
      intro request hrequest _
      refine owned_of_run hrun hunraced t request.1 ?_
      change (s.phase t).registered = some request.1
      unfold Phase.request at hrequest
      split at hrequest
      · next hphase =>
          rw [hphase, ← Option.mem_some_iff.mp hrequest]
          rfl
      · cases hrequest
  | _ => trivial

/-! ## `react_client_msg` -/

section React

variable {clients : HashMap String TaskId} {order : List (String × TaskId)} {name : String}
  {msg : ClientToServerMsg}

/-- Where no reply is owed, none is sent. -/
theorem answers_of_no_reply (h : replyTo clients name msg = none) :
    answers (reactClientMsg clients order name msg).sends = [] := by
  cases msg with
  | ping | listUsers | join => cases h
  | broadcast message =>
      simp only [Plan.sends, reactClientMsg, sent_writeAll]
      apply answers_eq_nil
      intro p hp
      obtain ⟨target, -, rfl⟩ := List.mem_map.mp hp
      rfl
  | sendDM recipient message =>
      by_cases hself : recipient = name
      · simp [replyTo, hself] at h
      · by_cases hmem : recipient ∈ clients
        · obtain ⟨target, htarget⟩ := Finmap.mem_iff.mp hmem
          cases hname : clients.lookup name with
          | none =>
              simp only [Plan.sends, reactClientMsg, hname, htarget]
              rfl
          | some writer =>
              simp only [Plan.sends, reactClientMsg, hname, htarget, if_neg hself]
              rfl
        · simp [replyTo, hself, hmem] at h

/-- A client with its own entry is sent the reply. -/
theorem answers_of_own (hself : clients.lookup name = some t) (horder : clients.Enumerates order) :
    answers (reactClientMsg clients order name msg).sends =
      ((replyTo clients name msg).map (t, ·)).toList := by
  cases msg with
  | ping =>
      simp only [Plan.sends, reactClientMsg, sent_reply hself]
      rfl
  | listUsers =>
      simp only [Plan.sends, reactClientMsg, sent_reply hself, replyTo]
      rw [← content_userList horder]
      rfl
  | join other =>
      simp only [Plan.sends, reactClientMsg, hself]
      rfl
  | broadcast message => exact answers_of_no_reply rfl
  | sendDM recipient message =>
      by_cases hown : recipient = name
      · simp only [Plan.sends, reactClientMsg, hself, replyTo, if_pos hown]
        rfl
      · by_cases hmem : recipient ∈ clients
        · have hnone : replyTo clients name (.sendDM recipient message) = none := by
            simp [replyTo, hown, hmem]
          rw [answers_of_no_reply hnone, hnone]
          rfl
        · have habsent : clients.lookup recipient = none := Finmap.lookup_eq_none.mpr hmem
          simp only [Plan.sends, reactClientMsg, hself, habsent, replyTo, if_neg hown, if_neg hmem]
          rfl

end React

/-! ## One step -/

@[simp] theorem unsent_react (name : String) (msg : ClientToServerMsg) (stage : Stage) :
    (Phase.doing (.react name msg) stage).unsent = [] := rfl

@[simp] theorem unsent_send (name : String) (connection : TaskId) (msg : ServerToClientMsg)
    (rest : List (TaskId × ServerToClientMsg)) (bail : Bool) (stage : Stage) :
    (Phase.doing (.send name connection msg rest bail) stage).unsent = (connection, msg) :: rest :=
  rfl

@[simp] theorem unsent_reacting (name : String) (bail : Bool)
    (sends : List (TaskId × ServerToClientMsg)) : (reacting name bail sends).unsent = sends := by
  cases sends <;> rfl

@[simp] theorem unsent_joinClient (got : Received) : (joinClient got).unsent = [] := by
  unfold joinClient
  split <;> rfl

@[simp] theorem unsent_handleClient (name : String) (got : Received) :
    (handleClient name got).unsent = [] := by
  cases got <;> rfl

/-- What is owed and what is to be written before a step is what it writes and what is to be
written after it. -/
def Owes (s : Server) (l : Label) (s' : Server) (t : TaskId) : Prop :=
  answers (s.phase t).unsent ++ owed t (s, l) =
    answers (written t (s, l)) ++ answers (s'.phase t).unsent

/-- A step of another party changes nothing for `t`. -/
theorem Owes.of_other (hphase : (s'.phase t).unsent = (s.phase t).unsent)
    (hact : ∀ order, l ≠ .act t order) (hwrote : ∀ ok, l ≠ .wrote t ok) : Owes s l s' t := by
  have howed : owed t (s, l) = [] := by
    cases l with
    | act u order =>
        have hu : u ≠ t := fun hu => hact order (by rw [hu])
        simp [owed, hu]
    | _ => rfl
  have hwritten : written t (s, l) = [] := by
    cases l with
    | wrote u ok =>
        have hu : u ≠ t := fun hu => hwrote ok (by rw [hu])
        cases ok <;> simp [written, hu]
    | _ => rfl
  rw [Owes, howed, hwritten, hphase]
  simp [answers]

theorem owes_of_moved (hmoved : Moved s t l s') (haddressed : Addressed s l)
    (hsucceeds : Succeeds l) (hcancel : l ≠ .cancel t) : Owes s l s' t := by
  cases hmoved with
  -- the reaction answers exactly where a reply is owed, since the entry is its own
  | @reacts name msg order hphase horder =>
      have hanswers : ((replyTo s.clients name msg).map (t, ·)).toList =
          answers (reactClientMsg s.clients order name msg).sends := by
        cases hreply : replyTo s.clients name msg with
        | none => rw [answers_of_no_reply hreply, Option.map_none, Option.toList_none]
        | some reply =>
            have hself : s.clients.lookup name = some t :=
              haddressed.own hphase (by simp [hreply])
            rw [answers_of_own hself horder, hreply]
      simpa [Owes, owed, written, hphase] using hanswers
  | @sent name connection msg rest bail hphase =>
      have hsplit : answers ((connection, msg) :: rest) = answers [(connection, msg)] ++
          answers rest := answers_append [(connection, msg)] rest
      simpa [Owes, owed, written, hphase] using hsplit
  -- a failed write is excluded by hypothesis
  | unsent | unwelcomed => cases hsucceeds
  | cancelled => exact absurd rfl hcancel
  | joined hphase | received hphase =>
      have hbefore : (s.phase t).unsent = [] := by rw [hphase]; rfl
      simp [Owes, owed, written, hbefore]
  | @requested work hphase | @granted work hphase =>
      cases work <;> simp [Owes, owed, written, hphase, Phase.unsent]
  | timedOut hphase | taken hphase | unused hphase | inserted hphase | returned hphase
  | bailed hphase | left hphase | welcomed hphase =>
      simp [Owes, owed, written, hphase, Phase.unsent]
  | @refused reply ok hphase =>
      cases ok <;> simp [Owes, owed, written, hphase, Phase.unsent]

theorem owes_of_step (hstep : step maxClients s l = some s') (haddressed : Addressed s l)
    (hsucceeds : Succeeds l) (hcancel : l ≠ .cancel t) : Owes s l s' t := by
  cases stepped_of_step hstep with
  | @spawned u _ habsent _ =>
      refine Owes.of_other ?_ (by simp) (by simp)
      by_cases hu : t = u
      · simp [hu, habsent, Phase.unsent]
      · simp [hu]
  | turnedAway | refusal | reaped | stopped => exact Owes.of_other rfl (by simp) (by simp)
  | @moved u l s' hmoved =>
      by_cases hu : u = t
      · subst hu
        exact owes_of_moved hmoved haddressed hsucceeds hcancel
      · refine Owes.of_other (by rw [hmoved.phase_ne (Ne.symm hu)]) ?_ ?_
        · rintro order rfl
          cases hmoved <;> exact hu rfl
        · rintro ok rfl
          cases hmoved <;> exact hu rfl

/-! ## A second `Join` -/

@[simp] theorem closing_reacting (name : String) (bail : Bool)
    (sends : List (TaskId × ServerToClientMsg)) : (reacting name bail sends).closing = bail := by
  cases sends <;> rfl

/-- A handler on its way out stays on it. -/
theorem closing_of_step (hstep : step maxClients s l = some s')
    (h : (s.phase t).closing = true) : (s'.phase t).closing = true := by
  cases stepped_of_step hstep with
  | @spawned u _ habsent _ =>
      have hu : t ≠ u := by
        rintro rfl
        simp [habsent, Phase.closing] at h
      simpa [hu] using h
  | turnedAway | refusal | reaped | stopped => exact h
  | @moved u l s' hmoved =>
      by_cases hu : t = u
      · subst hu
        cases hmoved with
        | @requested work hphase | @granted work hphase =>
            cases work <;> simp_all [Phase.closing]
        | @sent name connection msg rest bail hphase =>
            rw [hphase] at h
            have hbail : bail = true := h
            simpa using hbail
        | _ => simp_all [Phase.closing]
      · rwa [hmoved.phase_ne hu]

/-- With its own entry, a handler that processes `Join` in its loop is on its way out. -/
theorem SecondJoin.step (h : SecondJoin t (s, l)) (haddressed : Addressed s l)
    (hstep : step maxClients s l = some s') : (s'.phase t).closing = true := by
  obtain ⟨name, other, order, hphase, rfl⟩ := h
  change s.phase t = _ at hphase
  have hself : s.clients.lookup name = some t := haddressed.own hphase rfl
  simp only [Lesson10Parallel.step, act, hphase] at hstep
  split at hstep <;> cases hstep
  simp [reactClientMsg, hself]

/-! ## Runs -/

/-- Nothing happens to a task that has ended. -/
theorem ended_of_step (hstep : step maxClients s l = some s') (h : s.phase t = .ended) :
    s'.phase t = .ended ∧ owed t (s, l) = [] ∧ written t (s, l) = [] := by
  refine ⟨?_, ?_, ?_⟩
  · cases stepped_of_step hstep with
    | @spawned u _ habsent _ =>
        have hu : t ≠ u := by
          rintro rfl
          simp [habsent] at h
        simpa [hu] using h
    | turnedAway | refusal | reaped | stopped => exact h
    | @moved u l s' hmoved =>
        have hu : t ≠ u := by
          rintro rfl
          cases hmoved <;> simp_all
        rwa [hmoved.phase_ne hu]
  · cases l <;> simp [owed, h]
  · cases l with
    | wrote u ok => cases ok <;> simp [written, h]
    | _ => rfl

/-- What was written is what was owed, up to what is still to be written, or up to what the
task could not write because it was cancelled. -/
def Settled (trace : List (Server × Label)) (s : Server) (t : TaskId) : Prop :=
  answers (trace.flatMap (written t)) ++ answers (s.phase t).unsent = trace.flatMap (owed t) ∨
    (∃ p ∈ trace, p.2 = .cancel t) ∧ s.phase t = .ended ∧
      answers (trace.flatMap (written t)) <+: trace.flatMap (owed t)

theorem Settled.step (h : Settled trace s t) (hstep : step maxClients s l = some s')
    (haddressed : Addressed s l) (hsucceeds : Succeeds l) : Settled (trace ++ [(s, l)]) s' t := by
  unfold Settled
  rw [List.flatMap_append, List.flatMap_append, List.flatMap_singleton, List.flatMap_singleton,
    answers_append]
  rcases h with hsettled | ⟨hcancelled, hended, hinitial⟩
  · by_cases hcancel : l = .cancel t
    · subst hcancel
      right
      have hended : s'.phase t = .ended := by
        cases stepped_of_step hstep with
        | moved hmoved =>
            cases hmoved
            simp
      refine ⟨⟨_, List.mem_append_right _ List.mem_cons_self, rfl⟩, hended, ?_⟩
      simpa [owed, written] using ⟨_, hsettled⟩
    · left
      have howes : Owes s l s' t := owes_of_step hstep haddressed hsucceeds hcancel
      rw [List.append_assoc, ← howes, ← List.append_assoc, hsettled]
  · right
    obtain ⟨hended', howed, hwritten⟩ := ended_of_step hstep hended
    obtain ⟨p, hp, hcancel⟩ := hcancelled
    rw [howed, hwritten, answers_nil, List.append_nil, List.append_nil]
    exact ⟨⟨p, List.mem_append_left _ hp, hcancel⟩, hended', hinitial⟩

theorem settled_of_run (hrun : Run (Fires (step maxClients)) Server.init trace s)
    (haddressed : ∀ p ∈ trace, Addressed p.1 p.2) (hsucceeds : ∀ p ∈ trace, Succeeds p.2) :
    Settled trace s t := by
  refine hrun.invariantTraceUnder (C := fun s l => Addressed s l ∧ Succeeds l)
    (I := fun trace s => Settled trace s t) (fun p hp => ⟨haddressed p hp, hsucceeds p hp⟩)
    (.inl rfl) ?_
  rintro trace s l s' - h ⟨haddressed, hsucceeds⟩ hstep
  exact h.step hstep haddressed hsucceeds

theorem closing_of_run (hrun : Run (Fires (step maxClients)) Server.init trace s)
    (haddressed : ∀ p ∈ trace, Addressed p.1 p.2) :
    ∀ p ∈ trace, SecondJoin t p → (s.phase t).closing = true := by
  refine hrun.invariantTraceUnder (I := fun trace s =>
    ∀ p ∈ trace, SecondJoin t p → (s.phase t).closing = true) haddressed (by simp) ?_
  intro trace s l s' _ ih haddressed hstep p hp hjoin
  rcases List.mem_append.mp hp with hp | hp
  · exact closing_of_step hstep (ih p hp hjoin)
  · obtain rfl := List.mem_singleton.mp hp
    exact hjoin.step haddressed hstep

/-! ## Every run -/

/-- **Requests are answered on their own connection** in every run in which all writes
succeed and the clients that are owed a reply have their own entries: what the handler of
connection `t` has written in reply to its client went to `t` and is a prefix of what is
owed to it, and unless the handler was cancelled, what is missing is what it is about to
write.  After a second `Join` the handler does not go back to its loop. -/
theorem answered_on_own_connection
    (hrun : Run (Fires (step maxClients)) Server.init trace s)
    (haddressed : ∀ p ∈ trace, Addressed p.1 p.2) (hsucceeds : ∀ p ∈ trace, Succeeds p.2)
    (t : TaskId) :
    answers (trace.flatMap (written t)) <+: trace.flatMap (owed t) ∧
    ((∀ p ∈ trace, p.2 ≠ .cancel t) →
      answers (trace.flatMap (written t)) ++ answers (s.phase t).unsent =
        trace.flatMap (owed t)) ∧
    ∀ p ∈ trace, SecondJoin t p → (s.phase t).closing = true := by
  refine ⟨?_, ?_, closing_of_run hrun haddressed⟩
  · rcases settled_of_run (t := t) hrun haddressed hsucceeds with hsettled | ⟨-, -, hinitial⟩
    · exact ⟨_, hsettled⟩
    · exact hinitial
  · intro hcancel
    rcases settled_of_run (t := t) hrun haddressed hsucceeds with hsettled | ⟨⟨p, hp, hl⟩, -, -⟩
    · exact hsettled
    · exact absurd hl (hcancel p hp)

/-- "a" and "b" are joined.  "b" sends to "a" and then to all before the `Pong` of "a" is
written, and pings itself; "a" joins again. -/
theorem answered_on_own_connection_joined :
    ∃ trace s, Run (Fires (step 2)) Server.init trace s ∧
      trace.flatMap (written 0) = [(0, .pong), (0, .error "Unexpected message received")] ∧
      trace.flatMap (written 1) = [(0, .message "b" "hi"), (0, .message "b" "all"), (1, .pong)] ∧
      answers (trace.flatMap (written 0)) ++ answers (s.phase 0).unsent =
        trace.flatMap (owed 0) ∧
      answers (trace.flatMap (written 1)) ++ answers (s.phase 1).unsent =
        trace.flatMap (owed 1) ∧
      (s.phase 0).closing = true := by
  let table := [("a", 0), ("b", 1)]
  obtain ⟨trace, s, hrun, hp⟩ := exists_run_of_replay (step 2) Server.init
    ([.accept 0, .accept 1] ++ joins 0 "a" ++ joins 1 "b" ++ asks 0 .ping table ++
      asks 1 (.sendDM "a" "hi") table ++ sends 1 ++ [.act 1 []] ++
      asks 1 (.broadcast "all") table ++ sends 1 ++ sends 0 ++ [.act 0 [], .act 1 []] ++
      asks 1 .ping table ++ asks 0 (.join "c") table ++ sends 0 ++ sends 1)
    (fun r => decide ((∀ p ∈ r.1, Addressed p.1 p.2 ∧ Succeeds p.2 ∧
        p.2 ≠ .cancel 0 ∧ p.2 ≠ .cancel 1) ∧
      r.1.flatMap (written 0) = [(0, .pong), (0, .error "Unexpected message received")] ∧
      r.1.flatMap (written 1) =
        [(0, .message "b" "hi"), (0, .message "b" "all"), (1, .pong)] ∧
      ∃ p ∈ r.1, p.1.phase 0 = .doing (.react "a" (.join "c")) .holding ∧ p.2 = .act 0 table))
    (by decide +kernel)
  obtain ⟨hmeets, hfirst, hsecond, p, hp, hphase, hl⟩ := of_decide_eq_true hp
  have hanswered := fun t => answered_on_own_connection hrun (fun p hp => (hmeets p hp).1)
    (fun p hp => (hmeets p hp).2.1) t
  exact ⟨trace, s, hrun, hfirst, hsecond,
    (hanswered 0).2.1 fun p hp => (hmeets p hp).2.2.1,
    (hanswered 1).2.1 fun p hp => (hmeets p hp).2.2.2,
    (hanswered 0).2.2 p hp ⟨_, _, _, hphase, hl⟩⟩

/-- Two handlers find one name free and insert it one after the other.  The first client is
not answered: its `Pong` goes to the second.  When the second has left, the handler of the
first ignores a second `Join`. -/
theorem raced_join_misroutes_replies :
    ∃ trace s, Run (Fires (step 2)) Server.init trace s ∧ (∀ p ∈ trace, Succeeds p.2) ∧
      trace.flatMap (written 0) = [(1, .pong)] ∧
      ¬ answers (trace.flatMap (written 0)) <+: trace.flatMap (owed 0) ∧
      (∃ p ∈ trace, SecondJoin 0 p) ∧ (s.phase 0).closing = false := by
  obtain ⟨trace, s, hrun, hp⟩ := exists_run_of_replay (step 2) Server.init
    ([.accept 0, .accept 1] ++ greets 0 "a" ++ greets 1 "a" ++
      [.request 0, .grant 0, .act 0 [], .request 1, .grant 1, .act 1 []] ++
      asks 0 .ping [("a", 1)] ++ sends 0 ++ [.act 0 []] ++
      [.recv 1 .eof, .request 1, .grant 1, .act 1 []] ++ asks 0 (.join "b") [] ++ [.act 0 []])
    (fun r => decide ((∀ p ∈ r.1, Succeeds p.2) ∧ r.1.flatMap (written 0) = [(1, .pong)] ∧
      (∃ p ∈ r.1, p.1.phase 0 = .doing (.react "a" (.join "b")) .holding ∧ p.2 = .act 0 []) ∧
      (r.2.phase 0).closing = false))
    (by decide +kernel)
  obtain ⟨hsucceeds, hwritten, ⟨p, hp, hphase, hl⟩, hclosing⟩ := of_decide_eq_true hp
  refine ⟨trace, s, hrun, hsucceeds, hwritten, ?_, ⟨p, hp, _, _, _, hphase, hl⟩, hclosing⟩
  intro hinitial
  rw [hwritten] at hinitial
  have hmem : (1, Content.pong) ∈ trace.flatMap (owed 0) := hinitial.subset List.mem_cons_self
  obtain ⟨q, -, hq⟩ := List.mem_flatMap.mp hmem
  cases fst_of_owed hq

end RustCourse.Lesson10Parallel
