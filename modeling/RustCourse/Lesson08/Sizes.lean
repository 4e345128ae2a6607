import Mathlib.Algebra.BigOperators.Group.Finset.Defs
import RustCourse.Lesson08.Frames

/-!
# Messages that are too large for their readers

A `MessageReader` takes messages of at most 256 bytes.  `MessageWriter` has no such limit,
and what the server writes is put together from several messages it has read: a forwarded
message has the name of its sender, from the `Join`, and a text; a user list has the names
of all users; an error may name a user.

`deliverable_of_fits` is about the runs in which no such message becomes too large.  The
condition is on the request and the table it is carried out on, and says of each request
exactly that its messages are not too large (`fits_iff`).

## Strategy

The length of every encoding is known from the strings in the message (`Json.Sized`).  What a
plan writes is bounded by what the request and the table allow (`RequestFits`), act by act, and
a handler in the middle of its plan keeps the bound for the acts that are left
(`Phase.Small`).  A reader takes what is under the limit.
-/

namespace RustCourse.Lesson08

open Chat Transition Json

/-! ## What fits -/

/-- A reader of the same crate returns the message. -/
structure Deliverable (encode : ServerToClientMsg → List UInt8)
    (decode : List UInt8 → Option ServerToClientMsg) (msg : ServerToClientMsg) : Prop where
  small : (encode msg).length ≤ maxMessageSize.toNat
  read : ∀ rest, MessageReader.read decode ⟨frame encode msg ++ rest, false⟩ =
    (some (.ok msg), ⟨rest, false⟩)

/-- A thread is writing the message. -/
def Writing (s : Server) (msg : ServerToClientMsg) : Prop :=
  (∃ t c, (s.phase t).writing t = some (c, msg)) ∨
    s.acceptor = .refusing ∧ msg = .error "Server is full"

/-- The messages of clients that the handlers read were accepted by a `MessageReader`. -/
def AllAccepted (decode : List UInt8 → Option ClientToServerMsg) (trace : List (Server × Label)) :
    Prop :=
  ∀ p ∈ trace, ∀ t msg, p.2 = .handler t (.read (.msg msg)) →
    ∃ stream rest, MessageReader.read decode stream = (some (.ok msg), rest)

/-- The length of the list of the users. -/
def usersLength (clients : HashMap String ThreadId) : ℕ :=
  ∑ name ∈ clients.keys, quotedLength name + (clients.keys.card - 1) + 2

/-- The messages that the request is answered with are not too large. -/
def RequestFits (clients : HashMap String ThreadId) (name : String) : ClientToServerMsg → Prop
  | .listUsers => name ∈ clients → usersLength clients ≤ 233
  | .sendDM recipient message =>
      name ∈ clients → recipient ≠ name →
        if recipient ∈ clients then quotedLength name + quotedLength message ≤ 224
        else quotedLength recipient ≤ 226
  | .broadcast message =>
      (∃ other ∈ clients, other ≠ name) → quotedLength name + quotedLength message ≤ 224
  | _ => True

/-- If the step begins to carry out a request, its messages are not too large. -/
def Fits (s : Server) : Label → Prop
  | .handler t (.acquire _) =>
      match s.phase t with
      | .requesting name msg => RequestFits s.clients name msg
      | _ => True
  | _ => True

instance (clients : HashMap String ThreadId) (name : String) :
    (msg : ClientToServerMsg) → Decidable (RequestFits clients name msg)
  | .listUsers => inferInstanceAs (Decidable (name ∈ clients → usersLength clients ≤ 233))
  | .sendDM recipient message =>
      inferInstanceAs (Decidable (name ∈ clients → recipient ≠ name →
        if recipient ∈ clients then quotedLength name + quotedLength message ≤ 224
        else quotedLength recipient ≤ 226))
  | .broadcast message =>
      decidable_of_iff ((∃ other ∈ clients.keys, other ≠ name) →
        quotedLength name + quotedLength message ≤ 224) Iff.rfl
  | .join _ | .ping => instDecidableTrue

instance (s : Server) (l : Label) : Decidable (Fits s l) := by
  unfold Fits
  split
  · split <;> infer_instance
  · infer_instance

/-! ## Requests -/

section Requests

variable {encode : ServerToClientMsg → List UInt8} {clients : HashMap String ThreadId}
  {order : List (String × ThreadId)}

/-- The message of an act has at most 256 bytes. -/
def Act.Small (encode : ServerToClientMsg → List UInt8) : Act → Prop
  | .write _ msg => (encode msg).length ≤ 256
  | _ => True

theorem listLength_of_enumerates (horder : clients.Enumerates order) :
    listLength (order.map Prod.fst) = usersLength clients := by
  have hkeys := horder.map_fst
  have hsum : ((order.map Prod.fst).map quotedLength).sum =
      ∑ name ∈ clients.keys, quotedLength name := by
    rw [Finset.sum, ← hkeys, Multiset.map_coe, Multiset.sum_coe]
  have hcard : (order.map Prod.fst).length = clients.keys.card := by
    rw [Finset.card, ← hkeys, Multiset.coe_card]
  rw [listLength, usersLength, hsum, hcard]

theorem length_of_unknown (hsized : Sized encode) (recipient : String) :
    (encode (.error s!"User {recipient} does not exist")).length = 30 + quotedLength recipient := by
  have hbefore : quotedLength "User " = 7 := by decide
  have hafter : quotedLength " does not exist" = 17 := by decide
  have hfirst := quotedLength_append "User " recipient
  have hsecond := quotedLength_append ("User " ++ recipient) " does not exist"
  rw [hsized.error]
  have htext : s!"User {recipient} does not exist" =
      "User " ++ recipient ++ " does not exist" := rfl
  rw [htext]
  omega

theorem small_reply {name : String} {msg : ServerToClientMsg} :
    (∀ act ∈ reply clients name msg, Act.Small encode act) ↔
      (name ∈ clients → (encode msg).length ≤ 256) := by
  unfold reply
  split
  · next hclient => simp [Act.Small, Finmap.mem_of_lookup_eq_some hclient]
  · next hnone => simp [Finmap.lookup_eq_none.mp hnone]

theorem small_writeAll {items : List (String × ThreadId)} {msg : ServerToClientMsg} :
    (∀ act ∈ Chat.writeAll items msg, Act.Small encode act) ↔
      (items ≠ [] → (encode msg).length ≤ 256) := by
  cases items with
  | nil => simp [Chat.writeAll]
  | cons item rest =>
      simp only [ne_eq, reduceCtorEq, not_false_eq_true, true_implies]
      constructor
      · intro h
        exact h (.write item.2 msg) (by simp [Chat.writeAll])
      · intro h act hact
        obtain ⟨other, -, hother⟩ := List.mem_flatMap.mp hact
        simp only [List.mem_cons, List.not_mem_nil, or_false] at hother
        rcases hother with rfl | rfl | rfl
        · trivial
        · exact h
        · trivial

/-- **A request fits exactly if its messages do.** -/
theorem fits_iff (hsized : Sized encode) (horder : clients.Enumerates order) (name : String)
    (msg : ClientToServerMsg) :
    (∀ act ∈ (handleJoined clients order name msg).acts, Act.Small encode act) ↔
      RequestFits clients name msg := by
  -- the longest fixed text has 30 bytes; the others are bounded by the request
  cases msg with
  | join | ping =>
      have hunexpected : quotedLength "Unexpected message received" = 29 := by decide
      refine small_reply.trans (iff_of_true (fun _ => ?_) trivial)
      simp [hsized.error, hsized.pong, hunexpected]
  | listUsers =>
      refine small_reply.trans (imp_congr_right fun _ => ?_)
      rw [hsized.userList, listLength_of_enumerates horder]
      omega
  | broadcast message =>
      have hsome : (order.filter fun item => item.1 ≠ name) ≠ [] ↔
          ∃ other ∈ clients, other ≠ name := by
        simp only [← horder.mem_keys]
        simp
      refine small_writeAll.trans (imp_congr hsome ?_)
      rw [hsized.message]
      omega
  | sendDM recipient message =>
      have hyourself : quotedLength "Cannot send a DM to yourself" = 30 := by decide
      simp only [handleJoined, RequestFits]
      split
      · next hnone => simp [Finmap.lookup_eq_none.mp hnone]
      · next sender hsender =>
          have hmem := Finmap.mem_of_lookup_eq_some hsender
          by_cases hself : recipient = name
          · simp [Act.Small, hself, hsized.error, hyourself]
          · simp only [hself, if_false, hmem, true_implies, ne_eq, not_false_eq_true]
            split
            · next other hother =>
                have hknown := Finmap.mem_of_lookup_eq_some hother
                simp [Act.Small, hknown, hsized.message]
                omega
            · next hnone =>
                have hunknown := Finmap.lookup_eq_none.mp hnone
                have hlength := length_of_unknown hsized recipient
                simp [Act.Small, hunknown, hlength]
                omega

end Requests

/-! ## Runs -/

section Runs

variable {encode : ServerToClientMsg → List UInt8} {decode : List UInt8 → Option ServerToClientMsg}
  {maxClients : ℕ} {trace : List (Server × Label)} {s s' : Server} {t : ThreadId}
  {action : Action} {msg : ServerToClientMsg}

/-- What the handler is going to write is not too large. -/
def Phase.Small (encode : ServerToClientMsg → List UInt8) : Phase → Prop
  | .refusing reply => (encode reply).length ≤ 256
  | .serving _ _ acts _ => ∀ act ∈ acts, Act.Small encode act
  | _ => True

theorem Moved.small (h : Moved s t action s') (hsized : Sized encode)
    (hfits : Fits s (.handler t action)) (hsmall : (s.phase t).Small encode) :
    (s'.phase t).Small encode := by
  have hrest : ∀ {name held act rest bail}, s.phase t = .serving name held (act :: rest) bail →
      ∀ act ∈ rest, Act.Small encode act := by
    intro name held act rest bail hphase
    rw [hphase] at hsmall
    exact fun other hother => hsmall other (List.mem_cons_of_mem _ hother)
  cases h with
  | @joined got =>
      have hunexpected : quotedLength "Unexpected message received" = 29 := by decide
      simp only [Server.setPhase_phase, if_true]
      unfold joinClient
      split <;> simp [Phase.Small, hsized.error, hunexpected]
  | @received name got => cases got <;> simp [receive, Phase.Small]
  | taken =>
      have htaken : quotedLength "Username already taken" = 24 := by decide
      simp [Phase.Small, hsized.error, htaken]
  | @serve name msg order hphase _ horder =>
      simpa [Phase.Small] using
        (fits_iff hsized horder name msg).mpr (by simpa [Fits, hphase] using hfits)
  | lock hphase | unlock hphase | wrote hphase => simpa [Phase.Small] using hrest hphase
  | @served name held bail => cases bail <;> simp [Phase.Small]
  | _ => simp [Phase.Small]

theorem small_of_fits (hsized : Sized encode)
    (hrun : Run (Fires (step maxClients)) Server.init trace s)
    (hfits : ∀ p ∈ trace, Fits p.1 p.2) (t : ThreadId) : (s.phase t).Small encode := by
  revert t
  refine hrun.invariantTraceUnder (C := Fits) (I := fun _ s => ∀ t, (s.phase t).Small encode)
    hfits (fun _ => trivial) ?_
  intro trace s l s' hrun h hfits hstep t
  by_cases hown : ∃ action, l = .handler t action
  · obtain ⟨action, rfl⟩ := hown
    exact (moved_of_handlerStep hstep).small hsized hfits (h t)
  · rcases phase_of_other hrun hstep (by simpa using hown) with hsame | ⟨-, hreading⟩
    · exact hsame ▸ h t
    · rw [hreading]
      trivial

/-- **When the server only sends what can be read.**  In a run in which the messages of every
request are not too large, every message that a thread is writing has at most 256 bytes, and
a reader of the same crate returns it. -/
theorem deliverable_of_fits (hsized : Sized encode) (hinverts : decode (encode msg) = some msg)
    (hrun : Run (Fires (step maxClients)) Server.init trace s)
    (hfits : ∀ p ∈ trace, Fits p.1 p.2) (hwriting : Writing s msg) :
    Deliverable encode decode msg := by
  have hsmall : (encode msg).length ≤ maxMessageSize.toNat := by
    -- it is a handler that writes, or the acceptor
    rcases hwriting with ⟨t, c, hwriting⟩ | ⟨-, rfl⟩
    · have hsmall := small_of_fits hsized hrun hfits t
      cases hphase : s.phase t with
      | refusing reply =>
          rw [hphase] at hwriting hsmall
          cases hwriting
          exact hsmall
      | welcoming name =>
          rw [hphase] at hwriting
          cases hwriting
          simp [hsized.welcome, maxMessageSize]
      | serving name held acts bail =>
          rw [hphase] at hwriting hsmall
          match acts with
          | .write connection reply :: rest =>
              cases hwriting
              exact hsmall _ List.mem_cons_self
          | [] | .lock _ :: _ | .unlock _ :: _ => cases hwriting
      | _ =>
          rw [hphase] at hwriting
          cases hwriting
    · have hfull : quotedLength "Server is full" = 16 := by decide
      simp [hsized.error, hfull, maxMessageSize]
  exact ⟨hsmall, read_frame hinverts hsmall⟩

/-- Reads the encodings of these messages, as `serde_json::from_slice` does. -/
def decodeOf {T : Type*} (encode : T → List UInt8) (msgs : List T) (bytes : List UInt8) :
    Option T :=
  msgs.find? fun msg => decide (encode msg = bytes)

private theorem decodeOf_encode {T : Type*} {encode : T → List UInt8} {msgs : List T} {msg : T}
    (hdistinct : (msgs.map encode).Nodup) (hmem : msg ∈ msgs) :
    decodeOf encode msgs (encode msg) = some msg := by
  obtain ⟨found, hfound⟩ : ∃ found, decodeOf encode msgs (encode msg) = some found := by
    refine Option.isSome_iff_exists.mp ?_
    rw [decodeOf, List.find?_isSome]
    exact ⟨msg, hmem, by simp⟩
  have hsame : encode found = encode msg := by simpa using List.find?_some hfound
  have hmem' : found ∈ msgs := List.mem_of_find?_eq_some hfound
  rw [hfound, List.inj_on_of_nodup_map hdistinct hmem' hmem hsame]

/-- A direct message is forwarded. -/
theorem deliverable_of_fits_dm :
    ∃ trace s, Run (Fires (step 2)) Server.init trace s ∧ Writing s (.message "a" "hi") ∧
      Deliverable ServerToClientMsg.toVec
        (decodeOf ServerToClientMsg.toVec [.message "a" "hi"]) (.message "a" "hi") := by
  obtain ⟨trace, s, hrun, hp⟩ := exists_run_of_replay (step 2) Server.init
    (connects 0 ++ joins 0 "a" ++ connects 1 ++ joins 1 "b" ++
      [.handler 0 (.read (.msg (.sendDM "b" "hi"))), .handler 0 (.acquire [("a", 0), ("b", 1)]),
        .handler 0 (.acquire []), .handler 0 (.acquire [])])
    (fun r => decide ((∀ p ∈ r.1, Fits p.1 p.2) ∧
      (r.2.phase 0).writing 0 = some (1, .message "a" "hi"))) (by decide +kernel)
  obtain ⟨hfits, hwriting⟩ : (∀ p ∈ trace, Fits p.1 p.2) ∧
      (s.phase 0).writing 0 = some (1, .message "a" "hi") := of_decide_eq_true hp
  have hforwarded : Writing s (.message "a" "hi") := .inl ⟨0, 1, hwriting⟩
  exact ⟨trace, s, hrun, hforwarded,
    deliverable_of_fits sized_toVec (by decide) hrun hfits hforwarded⟩

/-! ### Two accepted messages -/

/-- A name and a text of 200 letters. -/
def longName : String := String.ofList (List.replicate 200 'n')

/-- A text that fits into a request but not into what is made of it. -/
def longText : String := String.ofList (List.replicate 200 't')

/-- The messages of two clients, all of which are accepted. -/
def longMsgs : List ClientToServerMsg :=
  [.join longName, .join "b", .broadcast longText]

theorem quotedLength_longName : quotedLength longName = 202 := by
  have hescape : (escape 'n').length = 1 := by decide
  calc quotedLength longName = 200 * (escape 'n').length + 2 := quotedLength_replicate 200 'n'
    _ = 202 := by rw [hescape]

theorem quotedLength_longText : quotedLength longText = 202 := by
  have hescape : (escape 't').length = 1 := by decide
  calc quotedLength longText = 200 * (escape 't').length + 2 := quotedLength_replicate 200 't'
    _ = 202 := by rw [hescape]

/-- The encodings are of different lengths, none of which is too large. -/
theorem length_longMsgs :
    (longMsgs.map ClientToServerMsg.toVec).map List.length = [220, 21, 228] := by
  have hname : quotedLength "b" = 3 := by decide
  simp only [longMsgs, List.map_cons, List.map_nil, length_join, length_broadcast,
    quotedLength_longName, quotedLength_longText, hname]

/-- The message that a handler reads in the step. -/
def Label.request : Label → Option ClientToServerMsg
  | .handler _ (.read (.msg msg)) => some msg
  | _ => none

/-- A user with a long name broadcasts a long text. -/
theorem broadcast_is_too_large :
    ∃ trace s, Run (Fires (step 2)) Server.init trace s ∧
      AllAccepted (decodeOf ClientToServerMsg.toVec longMsgs) trace ∧
      Writing s (.message longName longText) ∧
      (ServerToClientMsg.toVec (.message longName longText)).length = 436 ∧
      ∀ decode, ¬ Deliverable ServerToClientMsg.toVec decode (.message longName longText) := by
  obtain ⟨trace, s, hrun, hp⟩ := exists_run_of_replay (step 2) Server.init
    (connects 0 ++ joins 0 longName ++ connects 1 ++ joins 1 "b" ++
      [.handler 0 (.read (.msg (.broadcast longText))),
        .handler 0 (.acquire [(longName, 0), ("b", 1)]), .handler 0 (.acquire [])])
    (fun r => decide ((r.2.phase 0).writing 0 = some (1, .message longName longText)) &&
      r.1.all fun p => p.2.request.all fun msg => decide (msg ∈ longMsgs)) (by decide +kernel)
  obtain ⟨hwriting, hreads⟩ := Bool.and_eq_true_iff.mp hp
  have hlength : (ServerToClientMsg.toVec (.message longName longText)).length = 436 := by
    rw [sized_toVec.message, quotedLength_longName, quotedLength_longText]
  refine ⟨trace, s, hrun, ?_, .inl ⟨0, 1, of_decide_eq_true hwriting⟩, hlength, ?_⟩
  · rintro ⟨q, l⟩ hp t msg rfl
    have hmem : msg ∈ longMsgs := by
      simpa [Label.request] using List.all_eq_true.mp hreads _ hp
    have hdistinct : (longMsgs.map ClientToServerMsg.toVec).Nodup := by
      refine List.Nodup.of_map List.length ?_
      rw [length_longMsgs]
      decide
    have hsmall : ∀ n ∈ (longMsgs.map ClientToServerMsg.toVec).map List.length,
        n ≤ maxMessageSize.toNat := by
      rw [length_longMsgs]
      decide
    have hfits : msg.toVec.length ≤ maxMessageSize.toNat :=
      hsmall _ (List.mem_map_of_mem (List.mem_map_of_mem hmem))
    exact ⟨_, _, read_frame (decodeOf_encode hdistinct hmem) hfits []⟩
  · intro decode hdeliverable
    have hsmall := hdeliverable.small
    rw [hlength] at hsmall
    exact absurd hsmall (by decide)

end Runs

end RustCourse.Lesson08
