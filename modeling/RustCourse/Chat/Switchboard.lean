import RustCourse.Chat.Plan
import RustCourse.Chat.Room

/-!
# Handlers that write for each other

In lessons 08 and 10_parallel the handler of a client writes what its requests bring about
itself, to the connections of all clients concerned, under a read guard of the clients
table.  Several handlers do so at once, so two clients may be told the same things in
different orders.

`Switchboard` is what matters of such a server: the table, what every handler has still to
write, what was written to every connection, and the room that the requests make in the
order in which the handlers get the table.  What comes from one source to one connection is
written by one handler, the `speaker`.  So the `stream` from a source to a connection, what
was written of it and then what is still to be written, grows with the inbox of the member
(`grows_of_move`), until the speaker gives up (`stream_of_loss`).
-/

namespace RustCourse.Chat

open Groups

/-! ## What a plan writes to a connection -/

/-- What is sent to one connection. -/
def contentsTo (c : ℕ) (sends : List (ℕ × ServerToClientMsg)) : List Content :=
  (sends.filter fun send => send.1 = c).map fun send => send.2.content

@[simp] theorem contentsTo_nil (c : ℕ) : contentsTo c [] = [] := rfl

@[simp] theorem contentsTo_append (c : ℕ) (sends sends' : List (ℕ × ServerToClientMsg)) :
    contentsTo c (sends ++ sends') = contentsTo c sends ++ contentsTo c sends' := by
  simp [contentsTo]

theorem contentsTo_cons (c d : ℕ) (msg : ServerToClientMsg)
    (rest : List (ℕ × ServerToClientMsg)) : contentsTo c ((d, msg) :: rest) =
      (if d = c then [msg.content] else []) ++ contentsTo c rest := by
  unfold contentsTo
  split
  · next heq => simp [heq]
  · next hne => simp [hne]

/-- A message that is written is one more at its connection, and none at the others. -/
theorem told_of_write (told : ℕ → List Content) (d : ℕ) (msg : ServerToClientMsg) :
    (fun c => told c ++ contentsTo c [(d, msg)]) =
      Function.update told d (told d ++ [msg.content]) := by
  refine Function.eq_update_iff.mpr ⟨by simp [contentsTo_cons], fun c hc => ?_⟩
  simp [contentsTo_cons, Ne.symm hc]

theorem mem_contentsTo {c : ℕ} {sends : List (ℕ × ServerToClientMsg)} {content : Content} :
    content ∈ contentsTo c sends ↔ ∃ send ∈ sends, send.1 = c ∧ send.2.content = content := by
  simp [contentsTo, and_assoc]

section Respond

variable {registry : HashMap String ℕ} {name : String} {self : ℕ} {msg : ClientToServerMsg}
  {delivery : ℕ × Content}

/-- A request delivers messages in the name of the client, and answers to the client. -/
theorem source_of_respond (h : delivery ∈ (respond registry name self msg).deliveries) :
    delivery.2.source = some name ∨ delivery.2.source = none ∧ delivery.1 = self := by
  cases hreply : replyTo registry name msg with
  | none =>
      obtain ⟨text, htext⟩ := respond_of_no_reply hreply delivery h
      exact .inl (by rw [htext, Content.source])
  | some reply =>
      right
      rw [respond_of_replyTo hreply, Multiset.mem_singleton] at h
      subst h
      refine ⟨?_, rfl⟩
      cases msg with
      | join | ping | listUsers =>
          cases hreply
          rfl
      | broadcast => cases hreply
      | sendDM recipient message =>
          simp only [replyTo] at hreply
          split at hreply
          · cases hreply
            rfl
          · split at hreply <;> cases hreply
            rfl

/-- A request delivers to clients in the table only. -/
theorem target_of_respond (hself : registry.lookup name = some self)
    (h : delivery ∈ (respond registry name self msg).deliveries) :
    ∃ other, registry.lookup other = some delivery.1 := by
  cases hreply : replyTo registry name msg with
  | some reply =>
      rw [respond_of_replyTo hreply, Multiset.mem_singleton] at h
      exact ⟨name, by rw [h, hself]⟩
  | none =>
      cases msg with
      | join | ping | listUsers => cases hreply
      | broadcast message =>
          obtain ⟨entry, hentry, rfl⟩ := Multiset.mem_map.mp h
          -- the connection has an entry, and it is not that of the sender
          rw [← Finmap.lookup_eq_some_iff, HashMap.lookup_erase_eq_some] at hentry
          exact ⟨entry.1, hentry.2⟩
      | sendDM recipient message =>
          simp only [respond] at h
          split at h
          · rw [Multiset.mem_singleton] at h
            exact ⟨name, by rw [h, hself]⟩
          · split at h
            · next hlookup =>
                rw [Multiset.mem_singleton] at h
                exact ⟨recipient, by rw [h, hlookup]⟩
            · rw [Multiset.mem_singleton] at h
              exact ⟨name, by rw [h, hself]⟩

end Respond

/-! ## Switchboards -/

/-- What a server looks like to those who only see who writes what to whom. -/
@[ext] structure Switchboard where
  clients : HashMap String ℕ
  /-- what every handler has still to write, and to which connections -/
  unsent : ℕ → List (ℕ × ServerToClientMsg)
  /-- what was written to every connection -/
  told : ℕ → List Content
  room : Room

namespace Switchboard

/-- The handler that writes to connection `c` what comes from the source. -/
def speaker (b : Switchboard) (source : Option String) (c : ℕ) : Option ℕ :=
  match source with
  | some sender => b.clients.lookup sender
  | none => some c

/-- What has still to be written to connection `c` of what comes from the source. -/
def pending (b : Switchboard) (source : Option String) (c : ℕ) : List Content :=
  match b.speaker source c with
  | some handler => fromSource source (contentsTo c (b.unsent handler))
  | none => []

/-- What comes from the source to connection `c`, written or not. -/
def stream (b : Switchboard) (source : Option String) (c : ℕ) : List Content :=
  fromSource source (b.told c) ++ b.pending source c

/-- What a server does. -/
inductive Move (b : Switchboard) : Switchboard → Prop
  /-- a message to a client that is not in the table -/
  | aside {c : ℕ} {content : Content} : (∀ name, b.clients.lookup name ≠ some c) →
      Move b { b with told := Function.update b.told c (b.told c ++ [content]) }
  | insert {name : String} {c : ℕ} : (∀ handler, b.unsent handler = []) → name ∉ b.clients →
      (∀ other, b.clients.lookup other ≠ some c) → b.told c = [.welcome] →
      Move b { b with clients := b.clients.insert name c, room := b.room.apply (enter name) }
  | serve {name : String} {self : ℕ} {msg : ClientToServerMsg}
      {sends : List (ℕ × ServerToClientMsg)} : b.clients.lookup name = some self →
      b.unsent self = [] → deliveries sends = (respond b.clients name self msg).deliveries →
      Move b { b with
        unsent := Function.update b.unsent self sends
        room := b.room.apply (request name msg) }
  | write {self c : ℕ} {msg : ServerToClientMsg} {rest : List (ℕ × ServerToClientMsg)} :
      b.unsent self = (c, msg) :: rest →
      Move b { b with
        unsent := Function.update b.unsent self rest
        told := Function.update b.told c (b.told c ++ [msg.content]) }
  | erase {name : String} : (∀ handler, b.unsent handler = []) →
      Move b { b with clients := b.clients.erase name, room := b.room.apply (.leave name) }

/-- A handler gives up what it has still to write. -/
def lose (b : Switchboard) (handler : ℕ) : Switchboard :=
  { b with unsent := Function.update b.unsent handler [] }

/-- Every connection has one entry, and a handler writes to clients in the table, and what it
is the speaker of. -/
structure Sound (b : Switchboard) : Prop where
  members : b.room.members = b.clients.keys
  injective : ∀ name other c, b.clients.lookup name = some c → b.clients.lookup other = some c →
    name = other
  speaks : ∀ handler, ∀ send ∈ b.unsent handler,
    b.speaker send.2.content.source send.1 = some handler
  targets : ∀ handler, ∀ send ∈ b.unsent handler, ∃ name, b.clients.lookup name = some send.1

variable {b b' : Switchboard} {name : String} {self c : ℕ} {source : Option String}

theorem stream_of_idle (hidle : ∀ handler, b.unsent handler = []) :
    b.stream source c = fromSource source (b.told c) := by
  unfold stream pending
  split
  · rw [hidle, contentsTo_nil, fromSource_nil, List.append_nil]
  · rw [List.append_nil]

/-- What comes of a request is written by the handler that speaks for its client. -/
theorem speaks_of_sends {sends : List (ℕ × ServerToClientMsg)} {msg : ClientToServerMsg}
    (hself : b.clients.lookup name = some self)
    (hsends : deliveries sends = (respond b.clients name self msg).deliveries) :
    ∀ send ∈ sends, b.speaker send.2.content.source send.1 = some self ∧
      ∃ other, b.clients.lookup other = some send.1 := by
  intro send hsend
  have hdelivery : (send.1, send.2.content) ∈ (respond b.clients name self msg).deliveries := by
    rw [← hsends]
    exact Multiset.mem_map_of_mem _ hsend
  refine ⟨?_, target_of_respond hself hdelivery⟩
  rcases source_of_respond hdelivery with hsource | ⟨hsource, hown⟩
  · rw [hsource]
    exact hself
  · rw [hsource]
    exact congrArg some hown

theorem Sound.move (h : Sound b) (hmove : Move b b') : Sound b' := by
  cases hmove with
  | aside => exact ⟨h.members, h.injective, h.speaks, h.targets⟩
  | @insert name c hidle hfresh hnew _ =>
      -- nobody has anything left to write, so only the table and the room matter
      refine ⟨?_, ?_, by simp [hidle], by simp [hidle]⟩
      · ext member
        simp [enter, h.members, Finmap.mem_keys]
      · exact fun _ _ _ => HashMap.injective_insert h.injective hnew
  | @serve name self msg sends hself _ hsends =>
      have hspeaks := speaks_of_sends hself hsends
      refine ⟨by simp [request, Group.apply, h.members], h.injective, ?_, ?_⟩
      · intro handler send hsend
        by_cases hhandler : handler = self
        · subst hhandler
          simp only [Function.update_self] at hsend
          exact (hspeaks send hsend).1
        · simp only [Function.update_of_ne hhandler] at hsend
          exact h.speaks handler send hsend
      · intro handler send hsend
        by_cases hhandler : handler = self
        · subst hhandler
          simp only [Function.update_self] at hsend
          exact (hspeaks send hsend).2
        · simp only [Function.update_of_ne hhandler] at hsend
          exact h.targets handler send hsend
  | @write self c msg rest hunsent =>
      -- whoever writes has less to write than before
      have hbefore : ∀ handler, ∀ send ∈ Function.update b.unsent self rest handler,
          send ∈ b.unsent handler := by
        intro handler send hsend
        by_cases hhandler : handler = self
        · subst hhandler
          rw [Function.update_self] at hsend
          rw [hunsent]
          exact List.mem_cons_of_mem _ hsend
        · rwa [Function.update_of_ne hhandler] at hsend
      exact ⟨h.members, h.injective, fun handler send hsend =>
        h.speaks handler send (hbefore handler send hsend), fun handler send hsend =>
        h.targets handler send (hbefore handler send hsend)⟩
  | @erase name hidle =>
      refine ⟨?_, ?_, by simp [hidle], by simp [hidle]⟩
      · ext member
        simp [h.members, Finmap.mem_keys]
      · intro first second d hfirst hsecond
        exact h.injective first second d (HashMap.lookup_erase_eq_some.mp hfirst).2
          (HashMap.lookup_erase_eq_some.mp hsecond).2

theorem Sound.lose (h : Sound b) (handler : ℕ) : Sound (b.lose handler) := by
  have hbefore : ∀ other, ∀ send ∈ (b.lose handler).unsent other, send ∈ b.unsent other := by
    intro other send hsend
    by_cases heq : other = handler
    · simp [Switchboard.lose, heq] at hsend
    · simpa [Switchboard.lose, Function.update_of_ne heq] using hsend
  exact ⟨h.members, h.injective, fun other send hsend =>
    h.speaks other send (hbefore other send hsend), fun other send hsend =>
    h.targets other send (hbefore other send hsend)⟩

/-! ## Streams -/

/-- A write moves a message on in its stream. -/
theorem stream_of_write (h : Sound b) {d : ℕ} {msg : ServerToClientMsg}
    {rest : List (ℕ × ServerToClientMsg)} (hunsent : b.unsent self = (d, msg) :: rest) :
    stream { b with
      unsent := Function.update b.unsent self rest
      told := Function.update b.told d (b.told d ++ [msg.content]) } source c =
      b.stream source c := by
  have hspeaker := h.speaks self (d, msg) (by simp [hunsent])
  unfold stream pending
  change fromSource source (Function.update b.told d (b.told d ++ [msg.content]) c) ++
    (match b.speaker source c with
      | some handler =>
          fromSource source (contentsTo c (Function.update b.unsent self rest handler))
      | none => []) = _
  by_cases hd : d = c
  · subst hd
    rw [Function.update_self, fromSource_append]
    by_cases hsource : msg.content.source = source
    · -- it is the speaker that writes
      rw [← hsource, hspeaker]
      simp only [Function.update_self, hunsent, contentsTo_cons, if_true, fromSource_append]
      rw [List.append_assoc]
    · have hnone : fromSource source [msg.content] = [] := by simp [fromSource, hsource]
      rw [hnone, List.append_nil]
      cases b.speaker source d with
      | none => rfl
      | some handler =>
          by_cases hhandler : handler = self
          · subst hhandler
            simp only [Function.update_self, hunsent, contentsTo_cons, if_true, fromSource_append,
              hnone, List.nil_append]
          · simp [Function.update_of_ne hhandler]
  · rw [Function.update_of_ne (Ne.symm hd)]
    cases b.speaker source c with
    | none => rfl
    | some handler =>
        by_cases hhandler : handler = self
        · subst hhandler
          simp [hunsent, contentsTo_cons, hd]
        · simp [Function.update_of_ne hhandler]

/-- A request adds to the streams from its client, and its answer to the stream of answers. -/
theorem stream_of_serve {msg : ClientToServerMsg} {sends : List (ℕ × ServerToClientMsg)}
    {room : Room} (hself : b.clients.lookup name = some self) (hidle : b.unsent self = [])
    (hsends : deliveries sends = (respond b.clients name self msg).deliveries) :
    stream { b with unsent := Function.update b.unsent self sends, room } source c =
      b.stream source c ++ fromSource source (contentsTo c sends) := by
  unfold stream pending
  change fromSource source (b.told c) ++ (match b.speaker source c with
      | some handler =>
          fromSource source (contentsTo c (Function.update b.unsent self sends handler))
      | none => []) = _
  by_cases hspeaker : b.speaker source c = some self
  · simp [hspeaker, hidle]
  · have hnone : fromSource source (contentsTo c sends) = [] := by
      rw [fromSource, List.filter_eq_nil_iff]
      intro content hcontent hsource
      obtain ⟨send, hsend, rfl, rfl⟩ := mem_contentsTo.mp hcontent
      have hspeaks := (speaks_of_sends hself hsends send hsend).1
      rw [of_decide_eq_true hsource] at hspeaks
      exact hspeaker hspeaks
    rw [hnone, List.append_nil]
    cases hhandler : b.speaker source c with
    | none => rfl
    | some handler =>
        have hne : handler ≠ self := by
          rintro rfl
          exact hspeaker hhandler
        simp [Function.update_of_ne hne]

/-- **Streams grow as inboxes do**: a client that comes into the table has been told what is
in its inbox, and one that is in it gets what its member hears. -/
theorem grows_of_move (h : Sound b) (hmove : Move b b') (hentry : b'.clients.lookup name = some c)
    (source : Option String) :
    b'.stream source c = fromSource source (b'.room.inbox name) ∨
      b.clients.lookup name = some c ∧ ∃ news, b'.stream source c = b.stream source c ++ news ∧
        fromSource source (b'.room.inbox name) = fromSource source (b.room.inbox name) ++ news ∧
        (news ≠ [] → ∃ handler, b'.speaker source c = some handler ∧ b'.unsent handler ≠ []) := by
  cases hmove with
  | @aside d content hout =>
      refine .inr ⟨hentry, [], ?_, by simp, by simp⟩
      have hne : c ≠ d := by
        rintro rfl
        exact hout name hentry
      simp only [List.append_nil, stream, Function.update_of_ne hne]
      rfl
  | @insert other d hidle hfresh _ hgreeted =>
      -- is it the client whose name is inserted?
      rcases HashMap.lookup_insert_eq_some.mp hentry with ⟨rfl, rfl⟩ | ⟨hname, hentry⟩
      · left
        have htold : stream { b with
            clients := b.clients.insert name d
            room := b.room.apply (enter name) } source d = fromSource source (b.told d) :=
          stream_of_idle hidle
        rw [htold, hgreeted]
        simp [enter, Group.join_inbox]
      · refine .inr ⟨hentry, [], ?_, ?_, by simp⟩
        · rw [List.append_nil, stream_of_idle hidle]
          exact stream_of_idle hidle
        · simp [enter, Group.join_inbox_ne _ hname]
  | @serve sender self msg sends hself hidle hsends =>
      refine .inr ⟨hentry, fromSource source (contentsTo c sends),
        stream_of_serve hself hidle hsends, ?_, ?_⟩
      -- what the plan has for the connection is what the room tells the member
      · have hmem : name ∈ b.room.members := by
          rw [h.members, Finmap.mem_keys]
          exact Finmap.mem_of_lookup_eq_some hentry
        have hheard := hears_of_sends hsends hself hentry
          fun other hother => h.injective other name c hother hentry
        simp only [request, Group.tell_inbox _ hmem, fromSource_append]
        rw [h.members, ← hheard, contentsTo]
      · intro hnews
        obtain ⟨content, hcontent⟩ := List.exists_mem_of_ne_nil _ hnews
        obtain ⟨hcontent, hsource⟩ := List.mem_filter.mp hcontent
        obtain ⟨send, hsend, rfl, rfl⟩ := mem_contentsTo.mp hcontent
        refine ⟨self, ?_, ?_⟩
        · rw [← of_decide_eq_true hsource]
          exact (speaks_of_sends hself hsends send hsend).1
        · simp only [Function.update_self]
          exact List.ne_nil_of_mem hsend
  | write hunsent =>
      exact .inr ⟨hentry, [], by rw [stream_of_write h hunsent, List.append_nil], by simp, by simp⟩
  | @erase other hidle =>
      obtain ⟨hname, hentry⟩ := HashMap.lookup_erase_eq_some.mp hentry
      refine .inr ⟨hentry, [], ?_, ?_, by simp⟩
      · rw [List.append_nil, stream_of_idle hidle]
        exact stream_of_idle hidle
      · simp [Group.leave_inbox_ne hname]

/-- What a handler gives up is the end of the streams it speaks for. -/
theorem stream_of_loss (handler : ℕ) :
    (b.lose handler).stream source c <+: b.stream source c ∧
      (b.speaker source c ≠ some handler →
        (b.lose handler).stream source c = b.stream source c) := by
  have hspeaker : (b.lose handler).speaker source c = b.speaker source c := rfl
  unfold stream pending
  rw [hspeaker]
  cases hspeaks : b.speaker source c with
  | none => exact ⟨List.prefix_rfl, fun _ => rfl⟩
  | some other =>
      by_cases heq : other = handler
      · subst heq
        exact ⟨by simp [lose], fun hne => absurd rfl hne⟩
      · have hkept : (b.lose handler).unsent other = b.unsent other := Function.update_of_ne heq ..
        simp only [hkept]
        exact ⟨List.prefix_rfl, fun _ => rfl⟩

end Switchboard

end RustCourse.Chat
