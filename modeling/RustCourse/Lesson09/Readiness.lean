import RustCourse.Lesson09.Steps

/-!
# No message is left behind

`epoll` reports a client while its kernel buffer holds something.  `try_recv_msg` takes one
message per report, and the reads it makes may bring more of them into the buffer of the
`MessageReader`, where `epoll` does not see them.  If the kernel buffer is empty then, they
wait until the client sends something else.

`drained_of_singleLine` is about the runs in which no `recv` empties a kernel buffer and
comes to hold a second line; `stranded_of_not_singleLine` shows that such a `recv` is what
leaves a message behind.

The invariant is about the state between two events: a client whose kernel buffer is empty has
no line in its reader (`Drained`).  A `recv` that empties the buffer has taken the only line it
brought in, which is what `SingleLine` asks for.  It does not ask this where the message ends
the session of the client, so while that message is handled a line may be left (`Handled`).
-/

namespace RustCourse.Lesson09

open Chat Transition

variable {decode : List UInt8 → Option ClientToServerMsg} {maxClients : ℕ} {s s' : Server}
  {trace : List (Server × Label)} {reads : List ReadChoice}

/-! ## Reads from a socket -/

/-- The number of bytes the reads hand out. -/
def taken : List ReadChoice → ℕ
  | [] => 0
  | .take n :: rest => n + taken rest
  | _ :: rest => taken rest

section Reads

variable {T : Type*} {decode : List UInt8 → Option T} {r r' : MessageReader}
  {socket socket' : Socket} {got : Received T}

/-- **What one read does**: it hands out the first bytes of the kernel buffer, or it leaves
the socket alone. -/
theorem Socket.read_spec {free : ℕ} {choice : ReadChoice} {outcome : ReadOutcome free}
    (h : socket.read free choice = some (outcome, socket')) :
    (∃ bs hpos hfit, outcome = .bytes bs hpos hfit ∧ bs ++ socket'.incoming = socket.incoming ∧
      taken [choice] = bs.length) ∨
    ((∀ bs hpos hfit, outcome ≠ .bytes bs hpos hfit) ∧ socket' = socket ∧ taken [choice] = 0) := by
  cases choice with
  | take n =>
      simp only [Socket.read] at h
      split at h
      · next hn =>
          cases h
          refine .inl ⟨_, _, _, rfl, List.take_append_drop n _, ?_⟩
          rw [List.length_take, Nat.min_eq_left hn.2.2]
          rfl
      · cases h
  | nothing =>
      simp only [Socket.read] at h
      right
      (repeat' split at h) <;> cases h <;> simp [taken]
  | fails =>
      cases h
      right
      simp [taken]

/-- **What a `recv` does to a socket**: it moves bytes from the kernel buffer to the
reader, and looks at what it has. -/
theorem recv_socket (h : r.recv decode Socket.read reads socket = some (got, r', socket')) :
    ∃ r₀ : MessageReader, r₀.loaded ++ socket'.incoming = r.loaded ++ socket.incoming ∧
      (r₀.inspect decode = some (got, r') ∨
        r₀.inspect decode = none ∧ r' = r₀ ∧ ∀ msg, got ≠ .msg msg) := by
  obtain ⟨r₀, socket₀, hmoved, hends⟩ := MessageReader.recv_rule
    (P := fun r₀ socket₀ => r₀.loaded ++ socket₀.incoming = r.loaded ++ socket.incoming) h rfl
    (fun r₁ socket₁ choice bs hpos hfit socket₂ hmoved hread => by
      obtain ⟨_, _, _, heq, happend, -⟩ | ⟨hother, -⟩ := Socket.read_spec hread
      · cases heq
        rw [MessageReader.loaded_load, List.append_assoc, happend]
        exact hmoved
      · exact absurd rfl (hother bs hpos hfit))
  refine ⟨r₀, ?_⟩
  cases hends with
  | inspected hinspect => exact ⟨hmoved, .inl hinspect⟩
  | eof hinspect hread | wouldBlock hinspect hread | err hinspect hread =>
      obtain ⟨_, _, _, heq, -⟩ | ⟨-, hsame, -⟩ := Socket.read_spec hread
      · cases heq
      · exact ⟨hsame ▸ hmoved, .inr ⟨hinspect, rfl, by simp⟩⟩

/-- The bytes a `recv` takes are gone from the kernel buffer. -/
theorem taken_recv (h : r.recv decode Socket.read reads socket = some (got, r', socket')) :
    taken reads + socket'.incoming.length = socket.incoming.length := by
  have hcons : ∀ choice rest, taken (choice :: rest) = taken [choice] + taken rest := by
    intro choice rest
    cases choice <;> simp [taken]
  induction reads generalizing r socket with
  | nil =>
      obtain ⟨result, -, heq⟩ := Option.map_eq_some_iff.mp h
      cases heq
      exact Nat.zero_add _
  | cons choice rest ih =>
      rw [hcons]
      -- a read that hands out nothing is the last one
      have hlast : ∀ {outcome : ReadOutcome r.free} {socket₁ : Socket},
          socket.read r.free choice = some (outcome, socket₁) →
          (∀ bs hpos hfit, outcome ≠ .bytes bs hpos hfit) → rest.isEmpty = true →
          taken [choice] + taken rest + socket₁.incoming.length = socket.incoming.length := by
        intro outcome socket₁ hread hother hrest
        obtain ⟨_, _, _, heq, -⟩ | ⟨-, hsame, htaken⟩ := Socket.read_spec hread
        · exact absurd heq (hother _ _ _)
        · rw [hsame, htaken, List.isEmpty_iff.mp hrest]
          simp [taken]
      simp only [MessageReader.recv] at h
      split at h
      · next hread =>
          have hrest := ih h
          obtain ⟨_, _, _, heq, happend, htaken⟩ | ⟨hother, -⟩ := Socket.read_spec hread
          · cases heq
            -- what was read is missing in the kernel buffer
            have hlength := congrArg List.length happend
            rw [List.length_append] at hlength
            omega
          · exact absurd rfl (hother _ _ _)
      · next hread =>
          split at h
          · next hrest =>
              cases h
              exact hlast hread (by simp) hrest
          · cases h
      · next hread =>
          split at h
          · next hrest =>
              cases h
              exact hlast hread (by simp) hrest
          · cases h
      · next hread =>
          split at h
          · next hrest =>
              cases h
              exact hlast hread (by simp) hrest
          · cases h
      · cases h

end Reads

/-! ## What is left in a reader -/

/-- A message after which a client stays connected if every send succeeds. -/
def Expected : Option String → ClientToServerMsg → Bool
  | none, .join _ => true
  | none, _ => false
  | some _, .join _ => false
  | some _, _ => true

private theorem ok_handleClientMsg (clientWriters : HashMap String Fd) (order : List (String × Fd))
    (name : Option String) (fd : Fd) (msg : ClientToServerMsg) :
    (handleClientMsg clientWriters order name fd msg).ok = Expected name msg := by
  cases name with
  | none => cases msg <;> rfl
  | some name =>
      cases msg with
      | sendDM recipient message =>
          simp only [handleClientMsg, handleRegisteredClient, Expected]
          (repeat' split) <;> rfl
      | _ => rfl

/-- If the reads of the next event empty the kernel buffer of a client, and the first line
is a message after which the client stays, they do not bring in a second line. -/
def BringsOneLine (decode : List UInt8 → Option ClientToServerMsg) (s : Server)
    (reads : List ReadChoice) : Phase → Prop
  | .handling (.socket fd :: _) =>
      ∀ client ∈ s.clients.lookup fd, client.connected = true →
        let bytes := client.reader.loaded ++ (s.socket fd).incoming
        taken reads = (s.socket fd).incoming.length →
        (decode (bytes.take (bytes.idxOf newline))).any (Expected client.name) = true →
        bytes.count newline ≤ 1
  | _ => True

/-- **No `recv` leaves a line behind** in this step. -/
def SingleLine (decode : List UInt8 → Option ClientToServerMsg) (s : Server) : Label → Prop
  | .tryRecvMsg reads => BringsOneLine decode s reads s.phase
  | _ => True

instance (s : Server) (phase : Phase) : Decidable (BringsOneLine decode s reads phase) := by
  unfold BringsOneLine
  split <;> infer_instance

instance (s : Server) : (l : Label) → Decidable (SingleLine decode s l)
  | .tryRecvMsg reads => inferInstanceAs (Decidable (BringsOneLine decode s reads s.phase))
  | .arrive .. | .hangUp .. | .terminate | .wait .. | .accept .. | .handleClientMsg .. | .dismiss ..
  | .skip | .cleanup .. => instDecidableTrue

/-! ## The invariant -/

/-- A connected client with an empty kernel buffer has no line in its reader. -/
def Drained (s : Server) : Prop :=
  ∀ fd client, s.clients.lookup fd = some client → client.connected = true →
    (s.socket fd).incoming = [] → newline ∉ client.reader.loaded

/-- The same, except that the client whose message is being handled may have one if the
message is going to disconnect it. -/
def Handled (s : Server) : Prop :=
  ∀ fd client, s.clients.lookup fd = some client → client.connected = true →
    (s.socket fd).incoming = [] → newline ∈ client.reader.loaded →
    ∃ msg rest, s.phase = .reacting fd msg rest ∧ Expected client.name msg = false

theorem Drained.handled (h : Drained s) : Handled s :=
  fun fd client hclient hconnected hempty hline =>
    absurd hline (h fd client hclient hconnected hempty)

theorem Handled.drained (h : Handled s) (hphase : ∀ fd msg rest, s.phase ≠ .reacting fd msg rest) :
    Drained s := by
  intro fd client hclient hconnected hempty hline
  obtain ⟨msg, rest, hreacting, -⟩ := h fd client hclient hconnected hempty hline
  exact hphase fd msg rest hreacting

private theorem drained_stop (ok : Bool) : Drained (s.stop ok) := by
  intro fd client hclient
  cases (Finmap.lookup_empty fd).symm.trans hclient

/-- A `recv` leaves no line in a reader whose kernel buffer it finds or makes empty. -/
theorem Drained.received {fd : Fd} {rest : List Event} {client : Client}
    {got : Received ClientToServerMsg} {reader : MessageReader} {socket : Socket}
    (h : Drained s) (hsingle : SingleLine decode s (.tryRecvMsg reads))
    (hphase : s.phase = .handling (.socket fd :: rest))
    (hclient : s.clients.lookup fd = some client)
    (hrecv : client.reader.recv decode Socket.read reads (s.socket fd) =
      some (got, reader, socket)) :
    Handled (tryRecvMsg (s.setSocket fd socket) fd { client with reader } rest got) := by
  obtain ⟨r₀, hmoved, hends⟩ := recv_socket hrecv
  intro other client' hclient' hconnected hempty hline
  rw [tryRecvMsg_socket] at hempty
  by_cases hother : other = fd
  · subst hother
    rw [Server.setSocket_self] at hempty
    rw [hempty, List.append_nil] at hmoved
    cases got with
    | msg msg =>
        cases (Server.setClient_lookup _ _).symm.trans hclient'
        obtain hinspect | ⟨-, -, hother⟩ := hends
        · cases MessageReader.inspected hinspect with
          | msg hnewline hmsg =>
              refine ⟨msg, rest, rfl, ?_⟩
              by_contra hexpected
              -- the reads emptied the kernel buffer, so they brought in one line only
              have htaken := taken_recv hrecv
              rw [hempty, List.length_nil, Nat.add_zero] at htaken
              simp only [SingleLine, BringsOneLine, hphase, hclient] at hsingle
              have hkeeps : (decode r₀.line).any (Expected client.name) = true := by
                rw [hmsg]
                simpa using hexpected
              have hcount := hsingle client rfl hconnected htaken (hmoved ▸ hkeeps)
              rw [← hmoved, r₀.count_shift hnewline] at hcount
              have hleft : 0 < r₀.shift.loaded.count newline := List.count_pos_iff.mpr hline
              omega
        · exact absurd rfl (hother msg)
    | wouldBlock =>
        cases (Server.setClient_lookup _ _).symm.trans hclient'
        obtain hinspect | ⟨hinspect, rfl, -⟩ := hends
        · cases MessageReader.inspected hinspect
        · exact absurd hline (MessageReader.newline_notMem_of_inspect hinspect)
    | tooLarge | malformed | err | eof =>
        cases (Server.setClient_lookup _ _).symm.trans hclient'
        cases hconnected
  · rw [Server.setSocket_ne _ hother] at hempty
    have hlookup := (tryRecvMsg_lookup_ne _ rest got hother).symm.trans hclient'
    exact absurd hline (h other client' hlookup hconnected hempty)

theorem Handled.reacted {order : List (String × Fd)} {failAt : Option ℕ} {fd : Fd}
    {msg : ClientToServerMsg} {rest : List Event} {client client' : Client}
    {clientWriters : HashMap String Fd} {sent : Bool}
    (h : Handled s) (hphase : s.phase = .reacting fd msg rest)
    (hclient : s.clients.lookup fd = some client)
    (hperform : perform fd (handleClientMsg s.clientWriters order client.name fd msg).acts failAt
      client s.clientWriters = (client', clientWriters, sent)) :
    Drained { s.setClient fd { client' with connected := client'.connected &&
        (sent && (handleClientMsg s.clientWriters order client.name fd msg).ok) } with
      phase := .handling rest
      clientWriters } := by
  intro other client₁ hclient₁ hconnected hempty hline
  by_cases hother : other = fd
  · subst hother
    cases (Server.setClient_lookup _ _).symm.trans hclient₁
    simp only [Bool.and_eq_true, ok_handleClientMsg] at hconnected
    have hsame : client'.reader = client.reader ∧ client'.connected = client.connected := by
      cases registered_of_perform hperform <;> exact ⟨rfl, rfl⟩
    obtain ⟨msg', rest', hreacting, hexpected⟩ := h other client hclient
      (hsame.2 ▸ hconnected.1) hempty (hsame.1 ▸ hline)
    cases hphase.symm.trans hreacting
    rw [hconnected.2.2] at hexpected
    cases hexpected
  · have hlookup := (s.setClient_lookup_ne _ hother).symm.trans hclient₁
    obtain ⟨msg', rest', hreacting, -⟩ := h other client₁ hlookup hconnected hempty hline
    cases hphase.symm.trans hreacting
    exact hother rfl

theorem Handled.step {l : Label} (h : Handled s) (hsingle : SingleLine decode s l)
    (hstep : Stepped decode maxClients s l s') : Handled s' := by
  cases hstep with
  -- without clients there is nothing to show
  | terminated | waitFailed | acceptFailed | dismissFailed | shutdownFailed =>
      exact (drained_stop _).handled
  | waited hphase | aborted hphase | dismissed hphase | skipped hphase =>
      exact Drained.handled (h.drained (by simp [hphase]))
  -- bytes that arrive do not empty a buffer
  | @arrived fd bytes hopen =>
      intro other client hclient hconnected hempty
      refine h other client hclient hconnected ?_
      by_cases hother : other = fd
      · subst hother
        rw [Server.setSocket_self] at hempty
        exact (List.append_eq_nil_iff.mp hempty).1
      · rwa [Server.setSocket_ne _ hother] at hempty
  | @hungUp fd =>
      intro other client hclient hconnected hempty
      refine h other client hclient hconnected ?_
      by_cases hother : other = fd
      · subst hother
        rwa [Server.setSocket_self] at hempty
      · rwa [Server.setSocket_ne _ hother] at hempty
  | @accepted fd rest hphase hfree =>
      apply Drained.handled
      intro other client hclient hconnected hempty
      by_cases hother : other = fd
      · subst hother
        cases (Finmap.lookup_insert _).symm.trans hclient
        exact List.not_mem_nil
      · refine h.drained (by simp [hphase]) other client ?_ hconnected ?_
        · exact (Server.setClient_lookup_ne _ hother).symm.trans hclient
        · exact (congrArg Socket.incoming (Server.setSocket_ne _ hother)).symm.trans hempty
  | @turnedAway fd rest hphase hfree =>
      apply Drained.handled
      intro other client hclient hconnected hempty
      have hother : other ≠ fd := by
        intro heq
        subst heq
        exact hfree (.inl (Finmap.mem_of_lookup_eq_some hclient))
      refine h.drained (by simp [hphase]) other client hclient hconnected ?_
      exact (congrArg Socket.incoming (Server.setSocket_ne _ hother)).symm.trans hempty
  -- the two steps that read or handle a message
  | received hphase hclient hrecv =>
      exact (h.drained (by simp [hphase])).received hsingle hphase hclient hrecv
  | reacted hphase hclient horder hperform => exact (h.reacted hphase hclient hperform).handled
  | cleaned hphase horder =>
      apply Drained.handled
      intro fd client hclient hconnected hempty
      simp only [HashMap.lookup_retain, Option.filter_eq_some_iff] at hclient
      exact h.drained (by simp [hphase]) fd client hclient.1 hconnected hempty

/-! ## What `epoll` knows -/

/-- `epoll` knows every client. -/
def Watched (s : Server) : Prop :=
  ∀ fd ∈ s.clients, fd ∈ s.interest

theorem Watched.step {l : Label} (h : Watched s) (hstep : Stepped decode maxClients s l s') :
    Watched s' := by
  cases hstep with
  | terminated | waitFailed | acceptFailed | dismissFailed | shutdownFailed =>
      exact fun fd hmem => absurd hmem Finmap.notMem_empty
  | arrived | hungUp | waited | aborted | dismissed | skipped => exact h
  | accepted _ _ _ =>
      intro other hmem
      obtain rfl | hother := Finmap.mem_insert.mp hmem
      · exact Finset.mem_insert_self ..
      · exact Finset.mem_insert_of_mem (h other hother)
  | turnedAway _ _ _ => exact fun other hmem => Finset.mem_insert_of_mem (h other hmem)
  | @received reads fd rest client got reader socket _ hclient _ =>
      have hself := Finmap.mem_of_lookup_eq_some hclient
      cases got <;> intro other hmem <;>
        exact (Finmap.mem_insert.mp hmem).elim (fun heq => heq ▸ h fd hself) (h other)
  | @reacted _ _ fd _ _ _ _ _ _ _ hclient _ _ =>
      intro other hmem
      obtain rfl | hother := Finmap.mem_insert.mp hmem
      · exact h other (Finmap.mem_of_lookup_eq_some hclient)
      · exact h other hother
  | cleaned _ _ =>
      intro fd hmem
      obtain ⟨client, hclient⟩ := Finmap.mem_iff.mp hmem
      simp only [HashMap.lookup_retain, Option.filter_eq_some_iff] at hclient
      refine Finset.mem_filter.mpr ⟨h fd (Finmap.mem_of_lookup_eq_some hclient.1), ?_⟩
      simpa [hclient.1] using hclient.2

/-! ## Runs -/

/-- **No message is left behind** in a run in which no `recv` leaves a line behind: between
two calls of `process_events`, a connected client whose kernel buffer is empty has no line
in its reader; so a client with a line in its reader is due, and `epoll` will report it. -/
theorem drained_of_singleLine (hrun : Run (Fires (step decode maxClients)) Server.init trace s)
    (hsingle : ∀ p ∈ trace, SingleLine decode p.1 p.2) (hwaiting : s.phase = .waiting) :
    (∀ fd client, s.clients.lookup fd = some client → client.connected = true →
      (s.socket fd).incoming = [] → newline ∉ client.reader.loaded) ∧
    ∀ fd client, s.clients.lookup fd = some client → client.connected = true →
      newline ∈ client.reader.loaded → (Event.socket fd).Due s := by
  have hdrained : Drained s := by
    refine Handled.drained (hrun.invariantUnder hsingle ?_ ?_) (by simp [hwaiting])
    · exact Drained.handled fun fd client hclient => by cases hclient
    · exact fun _ _ _ h hsingle hstep => h.step hsingle (stepped_of_step hstep)
  have hwatched : Watched s := hrun.invariant (fun fd hmem => absurd hmem Finmap.notMem_empty)
    fun _ _ _ h hstep => h.step (stepped_of_step hstep)
  refine ⟨hdrained, ?_⟩
  intro fd client hclient hconnected hline
  refine ⟨hwatched fd (Finmap.mem_of_lookup_eq_some hclient), .inl fun hempty => ?_⟩
  exact hdrained fd client hclient hconnected hempty hline

/-- Two lines arrive at once, and two reads bring one each: the second is not forgotten. -/
theorem drained_of_singleLine_two :
    ∃ trace s, Run (Fires (step decodeLine 1)) Server.init trace s ∧
      (trace.filterMap fun p => if p.2 = .handleClientMsg [("a", 5)] none then some p.1.phase
        else none) = [.reacting 5 .ping []] ∧
      s.clients.lookup 5 = some joined ∧ newline ∉ joined.reader.loaded := by
  obtain ⟨trace, s, hrun, hp⟩ := exists_run_of_replay (step decodeLine 1) Server.init
    (connects 5 [] ++ [.arrive 5 (joinLine ++ [newline] ++ pingLine ++ [newline]),
      .wait (some [.socket 5]), .tryRecvMsg [.take 22], .handleClientMsg [] none,
      .cleanup [(5, joined)] true, .wait (some [.socket 5]), .tryRecvMsg [.take 7],
      .handleClientMsg [("a", 5)] none, .cleanup [(5, joined)] true])
    (fun r => decide ((r.1.filterMap fun p =>
        if p.2 = .handleClientMsg [("a", 5)] none then some p.1.phase else none) =
          [.reacting 5 .ping []] ∧
      (∀ p ∈ r.1, SingleLine decodeLine p.1 p.2) ∧ r.2.phase = .waiting ∧
      r.2.clients.lookup 5 = some joined ∧ (r.2.socket 5).incoming = []))
    (by decide +kernel)
  obtain ⟨hhandled, hsingle, hphase, hclient, hempty⟩ := of_decide_eq_true hp
  exact ⟨trace, s, hrun, hhandled, hclient,
    (drained_of_singleLine hrun hsingle hphase).1 5 joined hclient rfl hempty⟩

/-- A `recv` that breaks the rule returns a message after which the client stays, and
leaves a line behind an empty kernel buffer. -/
theorem stranded_of_not_singleLine (h : ¬ SingleLine decode s (.tryRecvMsg reads))
    (hstep : step decode maxClients s (.tryRecvMsg reads) = some s') :
    ∃ fd client msg rest, s'.phase = .reacting fd msg rest ∧ s'.clients.lookup fd = some client ∧
      client.connected = true ∧ Expected client.name msg = true ∧ (s'.socket fd).incoming = [] ∧
      newline ∈ client.reader.loaded := by
  cases stepped_of_step hstep with
  | @received _ fd rest client got reader socket hphase hclient hrecv =>
      simp only [SingleLine, BringsOneLine, hphase, hclient, Option.mem_def, Option.some.injEq,
        forall_eq', Classical.not_imp, not_le] at h
      obtain ⟨hconnected, htaken, hkeeps, hcount⟩ := h
      have hempty : socket.incoming = [] := by
        have hrest := taken_recv hrecv
        exact List.eq_nil_of_length_eq_zero (by omega)
      obtain ⟨r₀, hmoved, hends⟩ := recv_socket hrecv
      rw [hempty, List.append_nil] at hmoved
      rw [← hmoved] at hkeeps hcount
      have hnewline : newline ∈ r₀.loaded := List.count_pos_iff.mp (by omega)
      obtain ⟨msg, hmsg, hexpected⟩ := Option.any_eq_true _ _ |>.mp hkeeps
      obtain hinspect | ⟨hinspect, -⟩ := hends
      · have hfound : r₀.inspect decode = some (.msg msg, r₀.shift) := by
          simp only [MessageReader.inspect, hnewline, if_true, MessageReader.line, hmsg]
        cases hinspect.symm.trans hfound
        refine ⟨fd, _, msg, rest, rfl, Server.setClient_lookup _ _, hconnected, hexpected, ?_, ?_⟩
        · rw [tryRecvMsg_socket, Server.setSocket_self, hempty]
        · rw [r₀.count_shift hnewline] at hcount
          exact List.count_pos_iff.mp (show 0 < r₀.shift.loaded.count newline by omega)
      · exact absurd hnewline (MessageReader.newline_notMem_of_inspect hinspect)

/-- A client sends a join message and a ping, and both arrive before the server looks: the
ping stays in the reader, and `epoll` has nothing to report. -/
theorem second_line_is_stranded :
    ∃ trace s, Run (Fires (step decodeLine 1)) Server.init trace s ∧
      (∀ p ∈ trace, Succeeds p.2 ∧ LevelTriggered p.1 p.2) ∧ s.phase = .waiting ∧
      (∃ client ∈ s.clients.lookup 5, client.connected = true ∧
        client.reader.loaded = pingLine ++ [newline]) ∧
      (s.socket 5).incoming = [] ∧ ¬ (Event.socket 5).Due s := by
  let client : Client := ⟨some "a", ⟨pingLine ++ [newline], by decide⟩, true⟩
  obtain ⟨trace, s, hrun, hp⟩ := exists_run_of_replay (step decodeLine 1) Server.init
    (connects 5 [] ++
      [.arrive 5 (joinLine ++ [newline]), .arrive 5 (pingLine ++ [newline]),
        .wait (some [.socket 5]), .tryRecvMsg [.take 29], .handleClientMsg [] none,
        .cleanup [(5, client)] true])
    (fun r => decide ((∀ p ∈ r.1, Succeeds p.2 ∧ LevelTriggered p.1 p.2) ∧ r.2.phase = .waiting ∧
      r.2.clients.lookup 5 = some client ∧
      (r.2.socket 5).incoming = [] ∧ ¬ (Event.socket 5).Due r.2))
    (by decide +kernel)
  obtain ⟨hreal, hphase, hclient, hempty, hdue⟩ := of_decide_eq_true hp
  exact ⟨trace, s, hrun, hreal, hphase, ⟨client, hclient, rfl, rfl⟩, hempty, hdue⟩

end RustCourse.Lesson09
