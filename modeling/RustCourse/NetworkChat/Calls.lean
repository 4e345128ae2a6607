import RustCourse.Lib.Group
import RustCourse.NetworkChat.Poisoning

/-!
# Calls under the guard are whole

`add_client`, `remove_client` and `broadcast` write to one client after the other, but with
the guard of the `Mutex`.  So the clients see the calls one by one, in the order in which
they get the guard: `sent_whole_calls` compares what was written to every client of the
table with the inbox of a member of a group, of which the finished calls are the operations
(`opsOf`).  While nobody has the guard the two are the same.

This needs no assumption on the run.  A call that panics in a write has written to some of
the clients and not to the others, but the `Mutex` is poisoned then, and nothing is written
any more: so it is this call only that a client may be ahead with (`underWay`).
-/

namespace RustCourse.NetworkChat.Stage02

open Groups Transition

/-! ## The operations of a run -/

/-- Everybody but its source hears the content of the call. -/
def Call.announcement (call : Call) : Op SocketAddr ServerToClientMsg :=
  .tell fun _ member => if member = call.source then [] else [call.content]

/-- The operations that a call amounts to. -/
def Call.ops : Call → List (Op SocketAddr ServerToClientMsg)
  | .addClient address socket => [announcement (.addClient address socket), .join address []]
  | .removeClient address => [announcement (.removeClient address), .leave address]
  | .broadcast source message => [announcement (.broadcast source message)]

/-- The operations that a step makes on the group: those of the call that ends with it. -/
def opsOf (s : Server) : Label → List (Op SocketAddr ServerToClientMsg)
  | (p, .finish) =>
      match s.phase p with
      | .sending call _ => call.ops
      | _ => []
  | _ => []

/-- The group after the operations of a run. -/
def groupOf (trace : List (Server × Label)) : Group SocketAddr ServerToClientMsg :=
  Group.empty.after (trace.flatMap fun p => opsOf p.1 p.2)

/-- What was written to a socket. -/
def sentTo (socket : ℕ) (sent : List (ℕ × ServerToClientMsg)) : List ServerToClientMsg :=
  (sent.filter fun item => item.1 = socket).map Prod.snd

/-- What the entry was written of the call that is being made. -/
def Phase.part (address : SocketAddr) (socket : ℕ) : Phase → List ServerToClientMsg
  | .sending call rest =>
      if address = call.source ∨ (address, socket) ∈ rest then [] else [call.content]
  | _ => []

/-- The call that a party makes. -/
def Phase.call : Phase → Option Call
  | .sending call _ => some call
  | _ => none

/-- The call that ends with the step because a write fails. -/
def breaksOff (s : Server) : Label → Option Call
  | (p, .wrote false) => (s.phase p).call
  | _ => none

/-- The call during which a write failed. -/
def brokenOff (trace : List (Server × Label)) : Option Call :=
  trace.findSome? fun p => breaksOff p.1 p.2

/-- The call of the party that has the guard, or the one that was broken off. -/
def underWay (trace : List (Server × Label)) (s : Server) : Option Call :=
  (s.holder.bind fun p => (s.phase p).call).or (brokenOff trace)

variable {s s' : Server} {p q : Party} {action : Action} {trace : List (Server × Label)}
  {g : Group SocketAddr ServerToClientMsg} {cut : Option Call}

@[simp] theorem groupOf_snoc (trace : List (Server × Label)) (s : Server) (l : Label) :
    groupOf (trace ++ [(s, l)]) = (groupOf trace).after (opsOf s l) := by
  simp [groupOf]

@[simp] theorem brokenOff_snoc (trace : List (Server × Label)) (s : Server) (l : Label) :
    brokenOff (trace ++ [(s, l)]) = (brokenOff trace).or (breaksOff s l) := by
  simp [brokenOff]

@[simp] theorem sentTo_snoc (socket : ℕ) (sent : List (ℕ × ServerToClientMsg))
    (item : ℕ × ServerToClientMsg) :
    sentTo socket (sent ++ [item]) =
      sentTo socket sent ++ if item.1 = socket then [item.2] else [] := by
  by_cases hsocket : item.1 = socket <;> simp [sentTo, hsocket]

/-! ## Sockets -/

/-- The accept loop has added a client whose thread it has not spawned. -/
def Phase.added : Phase → Prop
  | .spawning _ _ | .panicked => True
  | _ => False

/-- Every entry has a socket of its own, and the next socket is new. -/
structure Sockets (s : Server) : Prop where
  own : ∀ a b n, s.clients.lookup a = some n → s.clients.lookup b = some n → a = b
  numbered : ∀ a n, s.clients.lookup a = some n → n ≤ s.spawned
  next : ∀ a, s.clients.lookup a = some s.spawned → (s.phase .acceptLoop).added
  used : ∀ item ∈ s.sent, item.1 ≤ s.spawned
  unused : ∀ item ∈ s.sent, item.1 = s.spawned → (s.phase .acceptLoop).added

theorem added_update (hp : ¬ (s.phase p).added) (next : Phase) (h : (s.phase .acceptLoop).added) :
    (Function.update s.phase p next .acceptLoop).added := by
  have hne : Party.acceptLoop ≠ p := by
    rintro rfl
    exact hp h
  rwa [Function.update_of_ne hne]

/-- A party moves, and nothing else changes. -/
theorem Sockets.move (h : Sockets s) (hp : ¬ (s.phase p).added) (next : Phase)
    (hclients : s'.clients = s.clients) (hspawned : s'.spawned = s.spawned)
    (hsent : s'.sent = s.sent) (hphase : s'.phase = Function.update s.phase p next) :
    Sockets s' := by
  constructor
  · rw [hclients]
    exact h.own
  · rw [hclients, hspawned]
    exact h.numbered
  · rw [hclients, hspawned, hphase]
    exact fun a ha => added_update hp next (h.next a ha)
  · rw [hsent, hspawned]
    exact h.used
  · rw [hsent, hspawned, hphase]
    exact fun item hitem hnew => added_update hp next (h.unused item hitem hnew)

/-- The thread of a client is spawned, and the next socket has a new number. -/
theorem Sockets.spawn (h : Sockets s) (hclients : s'.clients = s.clients)
    (hspawned : s'.spawned = s.spawned + 1) (hsent : s'.sent = s.sent) : Sockets s' := by
  constructor
  · rw [hclients]
    exact h.own
  · rw [hclients, hspawned]
    exact fun a n ha => Nat.le_succ_of_le (h.numbered a n ha)
  · rw [hclients, hspawned]
    intro a ha
    have := h.numbered a _ ha
    omega
  · rw [hsent, hspawned]
    exact fun item hitem => Nat.le_succ_of_le (h.used item hitem)
  · rw [hsent, hspawned]
    intro item hitem hnew
    have := h.used item hitem
    omega

/-- A client of the table is written to. -/
theorem Sockets.write (h : Sockets s) {address : SocketAddr} {socket : ℕ}
    (hlookup : s.clients.lookup address = some socket) (hp : ¬ (s.phase p).added) (next : Phase)
    (content : ServerToClientMsg) :
    Sockets { s.setPhase p next with sent := s.sent ++ [(socket, content)] } := by
  constructor
  · exact h.own
  · exact h.numbered
  · exact fun a ha => added_update hp next (h.next a ha)
  · intro item hitem
    rcases List.mem_append.mp hitem with hitem | hitem
    · exact h.used item hitem
    · rw [List.mem_singleton.mp hitem]
      exact h.numbered address socket hlookup
  · intro item hitem hnew
    rcases List.mem_append.mp hitem with hitem | hitem
    · exact added_update hp next (h.unused item hitem hnew)
    · rw [List.mem_singleton.mp hitem] at hnew
      obtain rfl : socket = s.spawned := hnew
      exact added_update hp next (h.next address hlookup)

/-- A client is added with the next socket. -/
theorem Sockets.add (h : Sockets s) (hloop : ¬ (s.phase .acceptLoop).added) (next : Phase)
    (hnext : next.added) {address : SocketAddr} {holder : Option Party} {poisoned : Bool} :
    Sockets ⟨s.clients.insert address s.spawned, holder, poisoned,
      Function.update s.phase .acceptLoop next, s.handles, s.spawned, s.sent⟩ := by
  have hafter : (Function.update s.phase .acceptLoop next .acceptLoop).added := by
    rwa [Function.update_self]
  -- only the new entry has the number `spawned`
  have hnew : ∀ a, s.clients.lookup a ≠ some s.spawned := fun a ha => hloop (h.next a ha)
  constructor
  · exact fun _ _ _ => HashMap.injective_insert h.own hnew
  · intro a n ha
    rcases HashMap.lookup_insert_eq_some.mp ha with ⟨-, rfl⟩ | ⟨-, ha⟩
    · exact le_rfl
    · exact h.numbered a n ha
  · exact fun _ _ => hafter
  · exact h.used
  · exact fun _ _ _ => hafter

/-- A client is removed. -/
theorem Sockets.remove (h : Sockets s) (hp : ¬ (s.phase p).added) (next : Phase)
    (address : SocketAddr) {holder : Option Party} {poisoned : Bool} :
    Sockets ⟨s.clients.erase address, holder, poisoned, Function.update s.phase p next,
      s.handles, s.spawned, s.sent⟩ := by
  have hbefore : ∀ {a n}, (s.clients.erase address).lookup a = some n →
      s.clients.lookup a = some n :=
    fun hlookup => (HashMap.lookup_erase_eq_some.mp hlookup).2
  constructor
  · exact fun a b n ha hb => h.own a b n (hbefore ha) (hbefore hb)
  · exact fun a n ha => h.numbered a n (hbefore ha)
  · exact fun a ha => added_update hp next (h.next a (hbefore ha))
  · exact h.used
  · exact fun item hitem hnew => added_update hp next (h.unused item hitem hnew)

/-! ## Inboxes -/

/-- What the entry was written of the call that is being made. -/
def Server.part (s : Server) (address : SocketAddr) (socket : ℕ) : List ServerToClientMsg :=
  match s.holder with
  | some p => (s.phase p).part address socket
  | none => []

/-- The state follows the group: what was written to the clients of the table is what is in their
inboxes, but for the call that is being made and the one that was cut off by a failing write. -/
structure Follows (g : Group SocketAddr ServerToClientMsg) (cut : Option Call) (s : Server) :
    Prop extends WellFormed s, Sockets s where
  members : g.members = s.clients.keys
  left : ∀ p call rest, s.phase p = .sending call rest → rest.Nodup ∧
    ∀ item ∈ rest, s.clients.lookup item.1 = some item.2 ∧ item.1 ≠ call.source
  whole : s.poisoned = false → ∀ a n, s.clients.lookup a = some n →
    sentTo n s.sent = g.inbox a ++ s.part a n
  uncut : s.poisoned = false → cut = none
  dropped : s.poisoned = true → s.holder = none
  broken : s.poisoned = true → ∀ a n, s.clients.lookup a = some n →
    sentTo n s.sent = g.inbox a ∨
      ∃ call ∈ cut, a ≠ call.source ∧ sentTo n s.sent = g.inbox a ++ [call.content]

theorem Follows.holder (h : Follows g cut s) {call : Call} {rest : List (SocketAddr × ℕ)}
    (hphase : s.phase p = .sending call rest) : s.holder = some p :=
  (h.held p).mpr (by rw [hphase]; exact trivial)

theorem Follows.unpoisoned (h : Follows g cut s) {call : Call} {rest : List (SocketAddr × ℕ)}
    (hphase : s.phase p = .sending call rest) : s.poisoned = false := by
  cases hpoisoned : s.poisoned with
  | false => rfl
  | true => exact nomatch (h.dropped hpoisoned).symm.trans (h.holder hphase)

theorem Follows.part_sending (h : Follows g cut s) {call : Call} {rest : List (SocketAddr × ℕ)}
    (hphase : s.phase p = .sending call rest) (a : SocketAddr) (n : ℕ) :
    s.part a n = if a = call.source ∨ (a, n) ∈ rest then [] else [call.content] := by
  rw [Server.part, h.holder hphase]
  show (s.phase p).part a n = _
  rw [hphase]
  rfl

theorem Server.part_free (hfree : s.holder = none) (a : SocketAddr) (n : ℕ) : s.part a n = [] := by
  rw [Server.part, hfree]

/-- A party goes on, and what it does has nothing to do with the guard. -/
theorem Follows.idle (h : Follows g cut s) (hformed : WellFormed s') (hsockets : Sockets s')
    (hclients : s'.clients = s.clients) (hholder : s'.holder = s.holder)
    (hpoisoned : s'.poisoned = s.poisoned) (hsent : s'.sent = s.sent)
    (hphase : ∀ q, (s'.phase q).holds → s'.phase q = s.phase q) : Follows g cut s' := by
  -- the guard and the phase of its holder decide what is sent of the call
  have hpart : ∀ a n, s'.part a n = s.part a n := by
    intro a n
    rw [Server.part, Server.part, hholder]
    cases hp : s.holder with
    | none => rfl
    | some q =>
        have hholds : (s'.phase q).holds := (hformed.held q).mp (hholder.trans hp)
        exact congrArg (Phase.part a n) (hphase q hholds)
  constructor
  · exact hformed
  · exact hsockets
  · rw [hclients]
    exact h.members
  · intro q call rest hsending
    have hkept := hphase q (by rw [hsending]; exact trivial)
    rw [hclients]
    exact h.left q call rest (hkept.symm.trans hsending)
  · rw [hpoisoned, hclients, hsent]
    intro hclean a n hlookup
    rw [hpart]
    exact h.whole hclean a n hlookup
  · rw [hpoisoned]
    exact h.uncut
  · rw [hpoisoned, hholder]
    exact h.dropped
  · rw [hpoisoned, hclients, hsent]
    exact h.broken

/-- While a party makes a call, what holds of it holds of the state. -/
theorem Follows.hold {call : Call} {rest : List (SocketAddr × ℕ)} (hformed : WellFormed s')
    (hsockets : Sockets s') (hmembers : g.members = s'.clients.keys) (hholder : s'.holder = some p)
    (hclean : s'.poisoned = false) (hcut : cut = none) (hphase : s'.phase p = .sending call rest)
    (hnodup : rest.Nodup)
    (hrest : ∀ item ∈ rest, s'.clients.lookup item.1 = some item.2 ∧ item.1 ≠ call.source)
    (hwhole : ∀ a n, s'.clients.lookup a = some n → sentTo n s'.sent =
      g.inbox a ++ if a = call.source ∨ (a, n) ∈ rest then [] else [call.content]) :
    Follows g cut s' := by
  constructor
  · exact hformed
  · exact hsockets
  · exact hmembers
  · intro q other others hsending
    obtain rfl : q = p := hformed.held.unique (by rw [hsending]; exact trivial)
      (by rw [hphase]; exact trivial)
    cases hphase.symm.trans hsending
    exact ⟨hnodup, hrest⟩
  · intro _ a n hlookup
    rw [hwhole a n hlookup, Server.part, hholder]
    show _ = _ ++ (s'.phase p).part a n
    rw [hphase]
    rfl
  · exact fun _ => hcut
  · intro hpoisoned
    exact nomatch hclean.symm.trans hpoisoned
  · intro hpoisoned
    exact nomatch hclean.symm.trans hpoisoned

/-- A party gets the guard. -/
theorem Follows.lock (h : Follows g cut s) {call : Call} {order : List (SocketAddr × ℕ)}
    (hphase : s.phase p = .locking call) (hfree : s.holder = none) (hclean : s.poisoned = false)
    (horder : s.clients.Enumerates order) :
    Follows g cut
      { s.setPhase p (.sending call (order.filter fun item => item.1 ≠ call.source)) with
        holder := some p } := by
  refine .hold (h.toWellFormed.step (.locked hphase hfree hclean horder))
    (h.toSockets.move (by rw [hphase]; exact id) _ rfl rfl rfl rfl) h.members rfl hclean
    (h.uncut hclean) (Function.update_self ..) ((horder.nodup_keys.of_map _).filter _) ?_ ?_
  · intro item hitem
    obtain ⟨hmem, hother⟩ := List.mem_filter.mp hitem
    exact ⟨horder.mem_iff.mp hmem, by simpa using hother⟩
  · intro a n hlookup
    have hwhole := h.whole hclean a n hlookup
    rw [Server.part_free hfree] at hwhole
    rw [if_pos]
    · exact hwhole
    · by_cases ha : a = call.source
      · exact .inl ha
      · exact .inr (List.mem_filter.mpr ⟨horder.mem_iff.mpr hlookup, by simpa using ha⟩)

/-- The next of the clients is written to. -/
theorem Follows.write (h : Follows g cut s) {call : Call} {address : SocketAddr} {socket : ℕ}
    {rest : List (SocketAddr × ℕ)}
    (hphase : s.phase p = .sending call ((address, socket) :: rest)) :
    Follows g cut { s.setPhase p (.sending call rest) with
      sent := s.sent ++ [(socket, call.content)] } := by
  have hclean := h.unpoisoned hphase
  obtain ⟨hnodup, hleft⟩ := h.left p call _ hphase
  obtain ⟨hentry, hother⟩ := hleft _ (List.mem_cons_self ..)
  refine .hold (h.toWellFormed.step (.wrote hphase))
    (h.toSockets.write hentry (by rw [hphase]; exact id) _ _) h.members (h.holder hphase) hclean
    (h.uncut hclean) (Function.update_self ..) hnodup.of_cons
    (fun item hitem => hleft item (by simp [hitem])) ?_
  intro a n hlookup
  show sentTo n (s.sent ++ [(socket, call.content)]) = _
  rw [sentTo_snoc, h.whole hclean a n hlookup, h.part_sending hphase]
  by_cases hn : socket = n
  · subst hn
    obtain rfl := h.own a address socket hlookup hentry
    have hgone : (a, socket) ∉ rest := (List.nodup_cons.mp hnodup).1
    simp [hother, hgone]
  · have hne : (a, n) ≠ (address, socket) := fun heq => hn (Prod.mk.inj heq).2.symm
    simp [hn, Ne.symm hn]

/-- An entry was told the call or not. -/
theorem Follows.ahead (h : Follows g cut s) {call : Call} {rest : List (SocketAddr × ℕ)}
    (hphase : s.phase p = .sending call rest) {a : SocketAddr} {n : ℕ}
    (hlookup : s.clients.lookup a = some n) : sentTo n s.sent = g.inbox a ∨
      ∃ told ∈ some call, a ≠ told.source ∧ sentTo n s.sent = g.inbox a ++ [told.content] := by
  have hwhole := h.whole (h.unpoisoned hphase) a n hlookup
  rw [h.part_sending hphase] at hwhole
  split at hwhole
  · exact .inl (hwhole.trans (List.append_nil _))
  · next hother => exact .inr ⟨call, rfl, fun ha => hother (.inl ha), hwhole⟩

/-- A write fails: some of the clients were told the call, and nobody will be told anything. -/
theorem Follows.interrupt (h : Follows g cut s) {call : Call} {rest : List (SocketAddr × ℕ)}
    (hphase : s.phase p = .sending call rest) (hformed : WellFormed (s.poison p)) :
    Follows g (some call) (s.poison p) := by
  have hidle : ∀ q other others, (s.poison p).phase q ≠ .sending other others := by
    intro q _ _ hsending
    exact hformed.held.not_holds q (by rw [hsending]; exact trivial)
  constructor
  · exact hformed
  · exact h.toSockets.move (by rw [hphase]; exact id) _ rfl rfl rfl rfl
  · exact h.members
  · exact fun q other others hsending => absurd hsending (hidle q other others)
  · exact nofun
  · exact nofun
  · exact fun _ => rfl
  · exact fun _ a n hlookup => h.ahead hphase hlookup

/-- The guard is dropped, and the clients were told all calls. -/
theorem Follows.done (hformed : WellFormed s') (hsockets : Sockets s')
    (hmembers : g.members = s'.clients.keys) (hfree : s'.holder = none)
    (hwhole : ∀ a n, s'.clients.lookup a = some n → sentTo n s'.sent = g.inbox a) :
    Follows g none s' := by
  constructor
  · exact hformed
  · exact hsockets
  · exact hmembers
  · intro q call rest hsending
    have hholder : s'.holder = some q := (hformed.held q).mpr (by rw [hsending]; exact trivial)
    exact nomatch hfree.symm.trans hholder
  · intro _ a n hlookup
    rw [Server.part_free hfree, List.append_nil]
    exact hwhole a n hlookup
  · exact fun _ => rfl
  · exact fun _ => hfree
  · exact fun _ a n hlookup => .inl (hwhole a n hlookup)

/-- Behind its last write a call was told to everybody but its source. -/
theorem Follows.announced (h : Follows g cut s) {call : Call}
    (hphase : s.phase p = .sending call []) {a : SocketAddr} {n : ℕ}
    (hlookup : s.clients.lookup a = some n) :
    sentTo n s.sent = (g.apply call.announcement).inbox a := by
  have hmem : a ∈ g.members := by
    rw [h.members, Finmap.mem_keys]
    exact Finmap.mem_of_lookup_eq_some hlookup
  rw [h.whole (h.unpoisoned hphase) a n hlookup, h.part_sending hphase, Call.announcement,
    Group.tell_inbox _ hmem]
  simp

/-- Nothing was written to the next socket before its client is added. -/
theorem Follows.unused_nil (h : Follows g cut s) (hloop : ¬ (s.phase .acceptLoop).added) :
    sentTo s.spawned s.sent = [] := by
  rw [sentTo, List.map_eq_nil_iff, List.filter_eq_nil_iff]
  intro item hitem hnew
  exact hloop (h.unused item hitem (of_decide_eq_true hnew))

theorem Follows.add (h : Follows g cut s) {address : SocketAddr} {socket : ℕ}
    (hphase : s.phase p = .sending (.addClient address socket) []) :
    Follows (g.after (Call.addClient address socket).ops) none
      (s.finish p (.addClient address socket)) := by
  have hformed := h.toWellFormed.finish hphase
  have hp := h.placed p
  rw [hphase] at hp
  obtain ⟨rfl, hnumber⟩ := hp.acceptLoop id nofun
  obtain rfl : socket = s.spawned := hnumber
  have hloop : ¬ (s.phase .acceptLoop).added := by rw [hphase]; exact id
  have hmembers : (g.after (Call.addClient address s.spawned).ops).members =
      (s.clients.insert address s.spawned).keys := by
    ext a
    simp [Call.ops, Call.announcement, h.members, Finmap.mem_keys]
  have hwhole : ∀ a n, (s.clients.insert address s.spawned).lookup a = some n →
      sentTo n s.sent = (g.after (Call.addClient address s.spawned).ops).inbox a := by
    intro a n hlookup
    rw [Call.ops, Group.after_cons, Group.after_cons, Group.after_nil]
    rcases HashMap.lookup_insert_eq_some.mp hlookup with ⟨rfl, rfl⟩ | ⟨ha, hlookup⟩
    · rw [Group.join_inbox]
      exact h.unused_nil hloop
    · rw [Group.join_inbox_ne _ ha]
      exact h.announced hphase hlookup
  -- an address that is entered already: the map is updated, then the caller panics
  by_cases hmem : address ∈ s.clients
  · rw [Server.finish_addClient_again hmem] at hformed ⊢
    exact .done hformed (h.toSockets.add hloop .panicked trivial) hmembers rfl hwhole
  · rw [Server.finish_addClient hmem] at hformed ⊢
    exact .done hformed (h.toSockets.add hloop (.spawning ..) trivial) hmembers rfl hwhole

theorem Follows.remove (h : Follows g cut s) {address : SocketAddr}
    (hphase : s.phase p = .sending (.removeClient address) []) :
    Follows (g.after (Call.removeClient address).ops) none
      (s.finish p (.removeClient address)) := by
  have hformed := h.toWellFormed.finish hphase
  have hp : ¬ (s.phase p).added := by rw [hphase]; exact id
  have hmembers : (g.after (Call.removeClient address).ops).members =
      (s.clients.erase address).keys := by
    simp [Call.ops, Call.announcement, h.members]
  have hwhole : ∀ a n, a ≠ address → s.clients.lookup a = some n →
      sentTo n s.sent = (g.after (Call.removeClient address).ops).inbox a := by
    intro a n ha hlookup
    rw [Call.ops, Group.after_cons, Group.after_cons, Group.after_nil, Group.leave_inbox_ne ha]
    exact h.announced hphase hlookup
  -- a client that is gone already: nothing is erased, then the caller panics
  by_cases hmem : address ∈ s.clients
  · rw [Server.finish_removeClient hmem] at hformed ⊢
    refine .done hformed (h.toSockets.remove hp .ended address) hmembers rfl fun a n hlookup => ?_
    obtain ⟨ha, hlookup⟩ := HashMap.lookup_erase_eq_some.mp hlookup
    exact hwhole a n ha hlookup
  · rw [Server.finish_removeClient_again hmem] at hformed ⊢
    refine .done hformed (h.toSockets.move hp .panicked rfl rfl rfl rfl) ?_ rfl
      fun a n hlookup => ?_
    · have hkeys : address ∉ s.clients.keys := fun hkey => hmem (Finmap.mem_keys.mp hkey)
      rw [hmembers, Finmap.keys_erase]
      exact Finset.erase_eq_of_notMem hkeys
    · have ha : a ≠ address := by
        rintro rfl
        exact hmem (Finmap.mem_of_lookup_eq_some hlookup)
      exact hwhole a n ha hlookup

theorem Follows.finish (h : Follows g cut s) {call : Call}
    (hphase : s.phase p = .sending call []) :
    Follows (g.after call.ops) none (s.finish p call) := by
  cases call with
  | addClient address socket => exact h.add hphase
  | removeClient address => exact h.remove hphase
  | broadcast source message =>
      refine .done (h.toWellFormed.finish hphase)
        (h.toSockets.move (by rw [hphase]; exact id) (.reading source) rfl rfl rfl rfl) h.members
        rfl fun a n hlookup => h.announced hphase hlookup

/-- **One step** of a party. -/
theorem Follows.step (h : Follows g cut s) (hmoved : Moved s p action s') :
    Follows (g.after (opsOf s (p, action))) (cut.or (breaksOff s (p, action))) s' := by
  have hformed := h.toWellFormed.step hmoved
  -- a party that is not in `sending` before or after its step leaves the guard to its holder
  have hkept : ∀ {next : Phase}, ¬ next.holds → ∀ q,
      (Function.update s.phase p next q).holds → Function.update s.phase p next q = s.phase q := by
    intro next hidle q hholds
    by_cases hq : q = p
    · subst hq
      rw [Function.update_self] at hholds
      exact absurd hholds hidle
    · rw [Function.update_of_ne hq]
  have hquiet : breaksOff s (p, action) = none → Follows (g.after (opsOf s (p, action))) cut s' →
      Follows (g.after (opsOf s (p, action))) (cut.or (breaksOff s (p, action))) s' := by
    intro hnone hfollows
    rwa [hnone, Option.or_none]
  cases hmoved with
  | acceptFailed hphase | accepted hphase | joined hphase | joinPanicked hphase | kept hphase
  | full hphase | admitted hphase | received hphase | closed hphase | lockPanicked hphase =>
      exact hquiet rfl <| h.idle hformed
        (h.toSockets.move (by rw [hphase]; exact id) _ rfl rfl rfl rfl) rfl rfl rfl rfl (hkept id)
  | @spawned address n hphase =>
      refine hquiet rfl <|
        h.idle hformed (h.toSockets.spawn rfl rfl rfl) rfl rfl rfl rfl fun q hholds => ?_
      -- neither the accept loop nor the new thread has the guard
      have hholds : (Function.update (Function.update s.phase p .accepting) (.client n)
        (.reading address) q).holds := hholds
      show Function.update (Function.update s.phase p .accepting) (.client n) (.reading address) q
        = s.phase q
      by_cases hq : q = .client n
      · rw [hq, Function.update_self] at hholds
        exact hholds.elim
      · rw [Function.update_of_ne hq] at hholds ⊢
        exact hkept id q hholds
  | unread => exact hquiet rfl h
  | locked hphase hfree hclean horder => exact hquiet rfl (h.lock hphase hfree hclean horder)
  | wrote hphase => exact hquiet rfl (h.write hphase)
  | @writeFailed call _ _ hphase =>
      -- the `Mutex` was not poisoned, so no call was broken off before
      have hbreaks : breaksOff s (p, .wrote false) = some call := by
        rw [breaksOff, hphase, Phase.call]
      rw [h.uncut (h.unpoisoned hphase), Option.none_or, hbreaks]
      exact h.interrupt hphase hformed
  | @finished call hphase =>
      have hops : opsOf s (p, .finish) = call.ops := by
        rw [opsOf, hphase]
      rw [hops, h.uncut (h.unpoisoned hphase)]
      exact h.finish hphase

/-! ## Runs -/

private theorem follows_init : Follows Group.empty none .init where
  toWellFormed := wellFormed_init
  own _ _ _ := nofun
  numbered _ _ := nofun
  next _ := nofun
  used _ := nofun
  unused _ := nofun
  members := rfl
  left p call rest := by
    cases p with
    | acceptLoop => exact nofun
    | client n => exact nofun
  whole _ _ _ := nofun
  uncut _ := rfl
  dropped := nofun
  broken := nofun

theorem follows_of_run (hrun : Run (Fires step) .init trace s) :
    Follows (groupOf trace) (brokenOff trace) s := by
  refine hrun.invariantTrace (I := fun trace s => Follows (groupOf trace) (brokenOff trace) s)
    follows_init ?_
  intro trace s l s' _ hfollows hstep
  rw [groupOf_snoc, brokenOff_snoc]
  exact hfollows.step (moved_of_step hstep)

/-- An entry may be ahead of its inbox by the call under way. -/
theorem Follows.one_ahead (h : Follows g (brokenOff trace) s) {a : SocketAddr} {n : ℕ}
    (hlookup : s.clients.lookup a = some n) : sentTo n s.sent = g.inbox a ∨
      ∃ call ∈ underWay trace s, a ≠ call.source ∧
        sentTo n s.sent = g.inbox a ++ [call.content] := by
  cases hpoisoned : s.poisoned with
  | true =>
      rw [underWay, h.dropped hpoisoned]
      exact h.broken hpoisoned a n hlookup
  | false =>
      cases hholder : s.holder with
      | none =>
          have hwhole := h.whole hpoisoned a n hlookup
          rw [Server.part_free hholder, List.append_nil] at hwhole
          exact .inl hwhole
      | some p =>
          have hholds := (h.held p).mp hholder
          unfold Phase.holds at hholds
          split at hholds
          · next call rest hphase =>
              have hcall : underWay trace s = some call := by
                rw [underWay, hholder, Option.bind_some, hphase, Phase.call, Option.some_or]
              rw [hcall]
              exact h.ahead hphase hlookup
          · exact hholds.elim

/-! ## Whole calls -/

/-- **Whole calls.**  Whatever happens, the table lists the members of the group; what was written
to the client of an entry is what the member heard of the calls that have ended, in their order.
Some entries, but not that of its source, are ahead by the content of one more call: the one that
is being made, or that was broken off by a write that failed.  While nobody has the guard, and
nothing has panicked with it, none is. -/
theorem sent_whole_calls (hrun : Run (Fires step) .init trace s) :
    (groupOf trace).members = s.clients.keys ∧
      (s.holder = none → s.poisoned = false → ∀ a n, s.clients.lookup a = some n →
        sentTo n s.sent = (groupOf trace).inbox a) ∧
      ∀ a n, s.clients.lookup a = some n → sentTo n s.sent = (groupOf trace).inbox a ∨
        ∃ call ∈ underWay trace s, a ≠ call.source ∧
          sentTo n s.sent = (groupOf trace).inbox a ++ [call.content] := by
  have h := follows_of_run hrun
  refine ⟨h.members, fun hfree hclean a n hlookup => ?_, fun a n => h.one_ahead⟩
  have hwhole := h.whole hclean a n hlookup
  rwa [Server.part_free hfree, List.append_nil] at hwhole

/-- Three clients; the first sends a message that the others get.  The third leaves, and its
call fails at the second client: the first one was told. -/
theorem sent_whole_calls_three :
    ∃ trace s, Run (Fires step) .init trace s ∧ (groupOf trace).members = s.clients.keys ∧
      underWay trace s = some (.removeClient "c") ∧
      sentTo 0 s.sent =
        (groupOf trace).inbox "a" ++ [(Call.removeClient "c").content] ∧
      sentTo 1 s.sent = (groupOf trace).inbox "b" ∧
      sentTo 2 s.sent = (groupOf trace).inbox "c" ∧
      (groupOf trace).inbox "c" = [.message "a: hi"] := by
  -- `a` is told that `c` left, `b` not yet; the write to it fails
  obtain ⟨trace, s, hrun, hp⟩ := exists_run_of_replay step .init
    (twoConnect ++
      [(.acceptLoop, .accept (some "c")), (.acceptLoop, .reap false), (.acceptLoop, .reap false),
        (.acceptLoop, .count), (.acceptLoop, .lock [("a", 0), ("b", 1)]),
        (.acceptLoop, .wrote true), (.acceptLoop, .wrote true), (.acceptLoop, .finish),
        (.acceptLoop, .spawn), (.client 2, .read .eof),
        (.client 0, .read (.msg (.message "hi"))),
        (.client 0, .lock [("a", 0), ("b", 1), ("c", 2)]), (.client 0, .wrote true),
        (.client 0, .wrote true), (.client 0, .finish),
        (.client 2, .lock [("a", 0), ("b", 1), ("c", 2)]), (.client 2, .wrote true),
        (.client 2, .wrote false)])
    (fun r => decide (underWay r.1 r.2 = some (.removeClient "c") ∧
      r.2.clients.lookup "a" = some 0 ∧ r.2.clients.lookup "b" = some 1 ∧
      r.2.clients.lookup "c" = some 2 ∧
      sentTo 0 r.2.sent ≠ (groupOf r.1).inbox "a" ∧
      sentTo 1 r.2.sent ≠
        (groupOf r.1).inbox "b" ++ [(Call.removeClient "c").content] ∧
      sentTo 2 r.2.sent = [.message "a: hi"])) (by decide +kernel)
  obtain ⟨hcall, ha, hb, hc, htold, huntold, hsent⟩ := of_decide_eq_true hp
  obtain ⟨hmembers, -, hahead⟩ := sent_whole_calls hrun
  simp only [hcall, Option.mem_def, Option.some.injEq, exists_eq_left'] at hahead
  have hthird : sentTo 2 s.sent = (groupOf trace).inbox "c" :=
    (hahead "c" 2 hc).resolve_right fun h => h.1 rfl
  exact ⟨trace, s, hrun, hmembers, hcall, ((hahead "a" 0 ha).resolve_left htold).2,
    (hahead "b" 1 hb).resolve_right fun h => huntold h.2, hthird, hthird.symm.trans hsent⟩

end RustCourse.NetworkChat.Stage02
