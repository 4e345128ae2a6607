import RustCourse.Lesson09.Steps
import RustCourse.Lib.Index

/-!
# The registry of the lesson 09 server

`clients` finds a client by its descriptor, `client_writers` by its username.  The second
map should be an index of the first: `HashMap.Indexes`, with the name of a client as its
key.

Every step keeps it but one.  `handle_unregistered_client_msg` tells a client that asks
for a taken name "Username already taken", and goes on: the client gets the name and its
writer replaces the one of the owner.  `registry_of_untaken` is about the runs in which
no client asks for a taken name.

Two steps need an argument: the reaction to a `Join`, where the condition says that nobody has
the name, and the cleanup, which releases the names of several clients one after the other
(`lookup_release_gone`, `lookup_release_stays`).
-/

namespace RustCourse.Lesson09

open Chat Transition

/-! ## The condition -/

/-- The client whose message is handled has a name, or does not ask for a taken one, or
cannot even be told that it is taken. -/
def AsksUntaken (s : Server) (failAt : Option ℕ) : Phase → Prop
  | .reacting fd (.join name) _ =>
      (s.clients.lookup fd).bind Client.name = none → name ∈ s.clientWriters → failAt = some 0
  | _ => True

/-- No client without a name gets a taken one in this step. -/
def Untaken (s : Server) : Label → Prop
  | .handleClientMsg _ failAt => AsksUntaken s failAt s.phase
  | _ => True

instance (s : Server) (failAt : Option ℕ) (phase : Phase) :
    Decidable (AsksUntaken s failAt phase) := by
  unfold AsksUntaken
  split <;> infer_instance

instance (s : Server) : (l : Label) → Decidable (Untaken s l)
  | .handleClientMsg _ failAt => inferInstanceAs (Decidable (AsksUntaken s failAt s.phase))
  | .arrive .. | .hangUp .. | .terminate | .wait .. | .accept .. | .tryRecvMsg .. | .dismiss ..
  | .skip | .cleanup .. => instDecidableTrue

/-- The writers are indexed by the names of the clients. -/
def Registry (s : Server) : Prop :=
  HashMap.Indexes Client.name s.clients s.clientWriters

variable {decode : List UInt8 → Option ClientToServerMsg} {maxClients : ℕ} {s s' : Server}
  {trace : List (Server × Label)}

/-! ## The cleanup -/

section Cleanup

variable {clients : List Client} {clientWriters : HashMap String Fd} {name : String}

/-- The names of the disconnected clients are removed. -/
theorem lookup_release_gone {client : Client} (hmem : client ∈ clients)
    (hleft : client.connected = false) (hname : client.name = some name) :
    (clients.foldl releaseName clientWriters).lookup name = none := by
  have hstays : ∀ (clients : List Client) (clientWriters : HashMap String Fd),
      clientWriters.lookup name = none →
      (clients.foldl releaseName clientWriters).lookup name = none := by
    intro clients
    induction clients with
    | nil => exact fun _ h => h
    | cons other rest ih =>
        intro clientWriters h
        apply ih
        unfold releaseName
        split
        · next removed _ _ =>
            by_cases hne : name = removed
            · rw [hne, Finmap.lookup_erase]
            · rw [Finmap.lookup_erase_ne hne, h]
        · exact h
  induction clients generalizing clientWriters with
  | nil => cases hmem
  | cons other rest ih =>
      rw [List.foldl_cons]
      cases hmem with
      | head =>
          apply hstays
          simp [releaseName, hleft, hname]
      | tail _ hrest => exact ih hrest

/-- The other names stay. -/
theorem lookup_release_stays
    (h : ∀ client ∈ clients, client.connected = false → client.name ≠ some name) :
    (clients.foldl releaseName clientWriters).lookup name = clientWriters.lookup name := by
  induction clients generalizing clientWriters with
  | nil => rfl
  | cons client rest ih =>
      rw [List.foldl_cons, ih fun other hother => h other (by simp [hother])]
      unfold releaseName
      split
      · next removed hleft hremoved =>
          have hne : name ≠ removed := by
            intro heq
            exact h client (by simp) hleft (heq ▸ hremoved)
          exact Finmap.lookup_erase_ne hne
      · rfl

theorem mem_values {order : List (Fd × Client)} {client : Client}
    (horder : s.clients.Enumerates order) :
    client ∈ order.map Prod.snd ↔ ∃ fd, s.clients.lookup fd = some client := by
  simp [← horder.mem_iff]

/-- After the cleanup the index is exact again. -/
theorem Registry.cleanup {order : List (Fd × Client)} (h : Registry s)
    (horder : s.clients.Enumerates order) :
    HashMap.Indexes Client.name (s.clients.retain fun _ client => client.connected)
      ((order.map Prod.snd).foldl releaseName s.clientWriters) := by
  apply HashMap.Indexes.retain h
  · intro fd client name hclient hleft hname
    exact lookup_release_gone ((mem_values horder).mpr ⟨fd, hclient⟩) hleft hname
  · intro name hnobody
    apply lookup_release_stays
    intro client hmem hleft
    obtain ⟨fd, hclient⟩ := (mem_values horder).mp hmem
    exact hnobody fd client hclient hleft

end Cleanup

/-! ## The invariant -/

theorem Untaken.joins {order : List (String × Fd)} {failAt : Option ℕ} {fd : Fd}
    {msg : ClientToServerMsg} {name : String} {rest : List Event} {client : Client}
    (h : Untaken s (.handleClientMsg order failAt)) (hphase : s.phase = .reacting fd msg rest)
    (hmsg : msg = .join name) (hclient : s.clients.lookup fd = some client)
    (hname : client.name = none) (htaken : name ∈ s.clientWriters) : failAt = some 0 := by
  subst hmsg
  simp only [Untaken, AsksUntaken, hphase, hclient, Option.bind_some] at h
  exact h hname htaken

theorem Registry.setClient {fd : Fd} {client client' : Client} (h : Registry s)
    (hclient : s.clients.lookup fd = some client) (hname : client'.name = client.name) :
    Registry (s.setClient fd client') :=
  HashMap.Indexes.store h (by simp [hclient, hname])

theorem Registry.stop (ok : Bool) : Registry (s.stop ok) :=
  HashMap.Indexes.empty

theorem Registry.step {l : Label} (h : Registry s) (huntaken : Untaken s l)
    (hstep : Stepped decode maxClients s l s') : Registry s' := by
  cases hstep with
  | arrived | hungUp | waited | turnedAway | aborted | dismissed | skipped => exact h
  | terminated | waitFailed | acceptFailed | dismissFailed | shutdownFailed => exact .stop _
  | @accepted fd rest hphase hfree =>
      have hnew : s.clients.lookup fd = none :=
        Finmap.lookup_eq_none.mpr fun hmem => hfree (.inl hmem)
      exact HashMap.Indexes.store h (by simp [hnew, Client.new])
  | @received reads fd rest client got reader socket hphase hclient hrecv =>
      have hkept : ∀ client' : Client, client'.name = client.name →
          Registry ((s.setSocket fd socket).setClient fd client') :=
        fun client' hname => Registry.setClient (s := s.setSocket fd socket) h hclient hname
      cases got <;> exact hkept _ rfl
  | @reacted order failAt fd msg rest client client' clientWriters sent hphase hclient horder
      hperform =>
      cases registered_of_perform hperform with
      | unchanged => exact h.setClient hclient rfl
      | @joined name hname hmsg htaken =>
          have hfree : name ∉ s.clientWriters := fun hmem =>
            htaken hmem (huntaken.joins hphase hmsg hclient hname hmem)
          exact HashMap.Indexes.assign h (by simp [hclient, hname]) hfree rfl
  | cleaned hphase horder => exact h.cleanup horder

theorem registry (hrun : Run (Fires (step decode maxClients)) Server.init trace s)
    (huntaken : ∀ p ∈ trace, Untaken p.1 p.2) : Registry s :=
  hrun.invariantUnder huntaken HashMap.Indexes.empty
    fun _ _ _ h huntaken hstep => h.step huntaken (stepped_of_step hstep)

/-- The entry of a connected client stays in every step that does not end the server. -/
theorem Registry.entry_stays {l : Label} {fd : Fd} {client : Client} {name : String}
    (h : Registry s) (huntaken : Untaken s l) (hstep : Stepped decode maxClients s l s')
    (hended : ∀ ok, s'.phase ≠ .ended ok) (hclient : s.clients.lookup fd = some client)
    (hconnected : client.connected = true) (hentry : s.clientWriters.lookup name = some fd) :
    s'.clientWriters.lookup name = some fd := by
  cases hstep with
  | arrived | hungUp | waited | accepted | turnedAway | aborted | dismissed | skipped =>
      exact hentry
  | terminated | waitFailed | acceptFailed | dismissFailed | shutdownFailed =>
      exact absurd rfl (hended _)
  | received _ _ _ => exact (congrArg _ (tryRecvMsg_clientWriters ..)).trans hentry
  | @reacted order failAt joining msg rest other client' clientWriters sent hphase hother horder
      hperform =>
      cases registered_of_perform hperform with
      | unchanged => exact hentry
      | @joined asked hname hmsg htaken =>
          have hne : name ≠ asked := by
            intro heq
            subst heq
            have hmem := Finmap.mem_of_lookup_eq_some hentry
            exact htaken hmem (huntaken.joins hphase hmsg hother hname hmem)
          exact (Finmap.lookup_insert_of_ne _ hne).trans hentry
  | @cleaned order hphase horder =>
      refine (lookup_release_stays fun left hmem hleft hname => ?_).trans hentry
      -- the client that leaves would be the connected one
      obtain ⟨fd', hleaving⟩ := (mem_values horder).mp hmem
      obtain ⟨client', hclient', hname'⟩ := h.owner name fd hentry
      obtain rfl := h.unique hclient' hleaving hname' hname
      obtain rfl : client = left := Option.some.inj (hclient.symm.trans hleaving)
      rw [hconnected] at hleft
      cases hleft

/-! ## Every run -/

/-- **The registry is consistent** in every run in which no client without a name asks for
a taken one: a client's name has an entry that is a writer to its own socket, every entry
is the name of exactly one client, and as long as a client is connected no step (no join
and no disconnect of another) touches its entry. -/
theorem registry_of_untaken (hrun : Run (Fires (step decode maxClients)) Server.init trace s)
    (huntaken : ∀ p ∈ trace, Untaken p.1 p.2) :
    (∀ fd client name, s.clients.lookup fd = some client → client.name = some name →
      s.clientWriters.lookup name = some fd) ∧
    (∀ name ∈ s.clientWriters,
      ∃! fd, ∃ client, s.clients.lookup fd = some client ∧ client.name = some name) ∧
    (∀ fd fd' client client' name, s.clients.lookup fd = some client →
      s.clients.lookup fd' = some client' → client.name = some name → client'.name = some name →
      fd = fd') ∧
    ∀ l s', Untaken s l → step decode maxClients s l = some s' → (∀ ok, s'.phase ≠ .ended ok) →
      ∀ fd client name, s.clients.lookup fd = some client → client.connected = true →
        s.clientWriters.lookup name = some fd → s'.clientWriters.lookup name = some fd := by
  have h := registry hrun huntaken
  refine ⟨h.entry, ?_, fun fd fd' client client' name => h.unique, ?_⟩
  · intro name hname
    obtain ⟨fd, hentry⟩ := Finmap.mem_iff.mp hname
    obtain ⟨client, hclient, hkey⟩ := h.owner name fd hentry
    refine ⟨fd, ⟨client, hclient, hkey⟩, ?_⟩
    rintro fd' ⟨client', hclient', hkey'⟩
    exact h.unique hclient' hclient hkey' hkey
  · intro l s' huntaken hstep hended fd client name
    exact h.entry_stays huntaken (stepped_of_step hstep) hended

/-- Two clients join, and the first of them hangs up: the cleanup takes its entry out of the
writers and leaves that of the other. -/
theorem registry_of_untaken_left :
    ∃ trace s s', Run (Fires (step decodeTalk 2)) Server.init trace s ∧
      step decodeTalk 2 s (.cleanup [(5, { named "a" with connected := false }), (6, named "b")]
        true) = some s' ∧
      s.clientWriters.lookup "a" = some 5 ∧
      (∃! fd, ∃ client, s.clients.lookup fd = some client ∧ client.name = some "b") ∧
      s'.clientWriters.lookup "a" = none ∧ s'.clientWriters.lookup "b" = some 6 := by
  obtain ⟨trace, s, hrun, hp⟩ := exists_run_of_replay (step decodeTalk 2) Server.init
    (bothJoin ++ [.hangUp 5, .wait (some [.socket 5]), .tryRecvMsg [.nothing]])
    (fun r => decide ((∀ p ∈ r.1, Untaken p.1 p.2) ∧ r.2.clientWriters.lookup "a" = some 5 ∧
        r.2.clientWriters.lookup "b" = some 6 ∧ r.2.clients.lookup 6 = some (named "b")) &&
      (step decodeTalk 2 r.2 (.cleanup [(5, { named "a" with connected := false }),
        (6, named "b")] true)).any fun s' : Server =>
          decide (s'.phase = .waiting ∧ s'.clientWriters.lookup "a" = none))
    (by decide +kernel)
  rw [Bool.and_eq_true, Option.any_eq_true] at hp
  obtain ⟨hstate, s', hstep, hafter⟩ := hp
  obtain ⟨huntaken, hfirst, hsecond, hclient⟩ := of_decide_eq_true hstate
  obtain ⟨hphase, hgone⟩ := of_decide_eq_true hafter
  obtain ⟨-, howner, -, hstays⟩ := registry_of_untaken hrun huntaken
  have hhanded : Untaken s (.cleanup [(5, { named "a" with connected := false }),
    (6, named "b")] true) := trivial
  refine ⟨trace, s, s', hrun, hstep, hfirst, ?_, hgone, ?_⟩
  · exact howner "b" (Finmap.mem_of_lookup_eq_some hsecond)
  · exact hstays _ s' hhanded hstep (by simp [hphase]) 6 (named "b") "b" hclient rfl hsecond

/-- Two clients join under one name: both have it, and the writer is that of the second. -/
theorem taken_name_is_replaced :
    ∃ trace s, Run (Fires (step decodeLine 2)) Server.init trace s ∧
      (∀ p ∈ trace, Succeeds p.2 ∧ LevelTriggered p.1 p.2) ∧ s.phase = .waiting ∧
      s.clients.lookup 5 = some joined ∧ s.clients.lookup 6 = some joined ∧
      s.clientWriters.lookup "a" = some 6 := by
  obtain ⟨trace, s, hrun, hp⟩ := exists_run_of_replay (step decodeLine 2) Server.init
    (connects 5 [] ++ joins 5 [] [] ++ connects 6 [(5, joined)] ++
      joins 6 [("a", 5)] [(5, joined)])
    (fun r => decide ((∀ p ∈ r.1, Succeeds p.2 ∧ LevelTriggered p.1 p.2) ∧ r.2.phase = .waiting ∧
      r.2.clients.lookup 5 = some joined ∧ r.2.clients.lookup 6 = some joined ∧
      r.2.clientWriters.lookup "a" = some 6))
    (by decide +kernel)
  exact ⟨trace, s, hrun, of_decide_eq_true hp⟩

end RustCourse.Lesson09
