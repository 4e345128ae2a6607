import RustCourse.Lesson08.Room
import RustCourse.Lesson08.Sizes

/-!
# What a client of the lesson 08 server reads

The parts put together: handlers that write their frames piece by piece (`Wire`), the codec,
and the room.  `reads_what_is_said` is about a client that reads with the `MessageReader` of
the crate what has arrived of the bytes on its connection, in any state of any run.  It gets
the messages that were written to it, as far as they have arrived, without an error, and
from every source these are the first of what its member of the room has heard.

Two things are asked of the run: no raced join, and no request whose messages are too large
for a reader.

## Strategy

The bytes on a connection are whole frames and a front of one (`whole_of_run`), and the frames
are those of the messages that were written to it, in order.  What has arrived is a front of
these bytes, so `readAll_take` says what is read.  What was written is, source by source, a
front of the inbox of a member (`told_by_sources`), and both kinds of fronts compose.
-/

namespace RustCourse.Lesson08

open Chat Groups Transition Framing Json

/-! ## Runs of the server -/

/-- The steps of the server in a run on the wire. -/
def serverTrace (trace : List (Wire × Wire.Label)) : List (Server × Label) :=
  trace.filterMap fun p =>
    match p.2 with
    | .server l => some (p.1.server, l)
    | .put _ _ => none

/-- The messages written to connection `c`. -/
def messagesTo (trace : List (Server × Label)) (c : ThreadId) : List ServerToClientMsg :=
  ((trace.flatMap fun p => written p.1 p.2).filter fun send => send.1 = c).map Prod.snd

variable {encode : ServerToClientMsg → List UInt8} {maxClients : ℕ} {w w' : Wire}
  {trace : List (Wire × Wire.Label)} {l : Wire.Label} {c : ThreadId} {name : String}

@[simp] theorem serverTrace_put (trace : List (Wire × Wire.Label)) (w : Wire) (thread : Thread)
    (n : ℕ) : serverTrace (trace ++ [(w, .put thread n)]) = serverTrace trace := by
  simp [serverTrace]

@[simp] theorem serverTrace_server (trace : List (Wire × Wire.Label)) (w : Wire) (l : Label) :
    serverTrace (trace ++ [(w, .server l)]) = serverTrace trace ++ [(w.server, l)] := by
  simp [serverTrace]

theorem told_eq_map (trace : List (Server × Label)) :
    told trace c = (messagesTo trace c).map ServerToClientMsg.content := by
  simp [told, messagesTo, contentsTo]

private theorem messagesTo_snoc (trace : List (Server × Label)) (s : Server) (l : Label) :
    messagesTo (trace ++ [(s, l)]) c =
      messagesTo trace c ++ ((written s l).filter fun send => send.1 = c).map Prod.snd := by
  simp [messagesTo]

/-! ## The bytes of a run -/

/-- **What a step on the wire is**, with its label. -/
inductive Sends (encode : ServerToClientMsg → List UInt8) (maxClients : ℕ) (w : Wire) :
    Wire.Label → Wire → Prop
  | put {thread : Thread} {n : ℕ} {connection msg} : w.writing thread = some (connection, msg) →
      Sends encode maxClients w (.put thread n)
        { w with sinks := w.sinks.put thread connection (frame encode msg) n }
  | quiet {l : Label} {server} : step maxClients w.server l = some server → l.outcome = none →
      Sends encode maxClients w (.server l) { w with server }
  | finish {l : Label} {server thread ok connection msg} :
      step maxClients w.server l = some server → l.outcome = some (thread, ok) →
      w.writing thread = some (connection, msg) →
      (ok = true → w.sinks.progress thread = (frame encode msg).length) →
      Sends encode maxClients w (.server l)
        { server
          sinks := w.sinks.finish thread connection ok
          refusals := w.refusals + if thread = .acceptor then 1 else 0 }

theorem sends_of_step (h : w.step encode maxClients l = some w') :
    Sends encode maxClients w l w' := by
  cases l with
  | put thread n =>
      simp only [Wire.step] at h
      split at h
      · next hwriting =>
          split at h <;> cases h
          exact .put hwriting
      · cases h
  | server l =>
      simp only [Wire.step] at h
      split at h
      · next server hstep =>
          split at h
          · next thread ok houtcome =>
              split at h
              · next hwriting =>
                  split at h <;> cases h
                  next hcomplete => exact .finish hstep houtcome hwriting hcomplete
              · cases h
          · next houtcome =>
              cases h
              exact .quiet hstep houtcome
      · cases h

/-- The steps of the server in a run on the wire are a run of the server. -/
theorem run_of_wire (hrun : Run (Fires (Wire.step encode maxClients)) Wire.init trace w) :
    Run (Fires (step maxClients)) Server.init (serverTrace trace) w.server := by
  refine hrun.invariantTrace (I := fun trace w =>
    Run (Fires (step maxClients)) Server.init (serverTrace trace) w.server) .nil ?_
  intro trace w l w' _ hserver hwire
  cases sends_of_step hwire with
  | put => rwa [serverTrace_put]
  | quiet hstep | finish hstep =>
      rw [serverTrace_server]
      exact hserver.fire _ hstep

/-- A step that ends no write writes nothing. -/
theorem written_of_quiet {s : Server} {l : Label} (houtcome : l.outcome = none) :
    written s l = [] := by
  cases l with
  | handler t action =>
      cases action with
      | wrote => cases houtcome
      | _ => rfl
  | _ => rfl

/-- What was written by a step that ends a write. -/
theorem written_of_outcome {l : Label} {thread : Thread} {ok : Bool} {connection : Connection}
    {msg : ServerToClientMsg} (houtcome : l.outcome = some (thread, ok))
    (hwriting : w.writing thread = some (connection, msg)) (c : ThreadId) :
    ((written w.server l).filter fun send => send.1 = c).map Prod.snd =
      if ok = true ∧ connection = .served c then [msg] else [] := by
  cases l with
  | drop => cases houtcome
  | acceptor action =>
      cases action with
      | refused =>
          cases houtcome
          simp only [Wire.writing] at hwriting
          split at hwriting <;> cases hwriting
          simp [written]
      | _ => cases houtcome
  | handler t action =>
      cases action with
      | wrote ok =>
          cases houtcome
          cases ok with
          | false => simp [written]
          | true =>
              simp only [Wire.writing, Option.map_eq_some_iff] at hwriting
              obtain ⟨send, hsend, heq⟩ := hwriting
              cases heq
              by_cases hc : send.1 = c <;> simp [written, hsend, hc]
      | _ => cases houtcome

/-- **The bytes on a connection** are the frames of the messages that were written to it, and
what there is of the one that is being written. -/
theorem whole_of_run (hrun : Run (Fires (Wire.step encode maxClients)) Wire.init trace w) :
    w.sinks.broken (.served c) = false →
      Whole (frame encode) w.writing w.sinks (.served c) (messagesTo (serverTrace trace) c) := by
  refine hrun.invariantTrace (I := fun trace w => w.sinks.broken (.served c) = false →
    Whole (frame encode) w.writing w.sinks (.served c) (messagesTo (serverTrace trace) c)) ?_ ?_
  · intro _
    refine ⟨fun _ => rfl, fun thread msg hwriting => ?_⟩
    cases thread <;> cases hwriting
  · intro trace w l w' hrun ih hwire hintact
    have hserver := run_of_wire hrun
    have hserver' := run_of_wire (hrun.snoc hwire)
    have hbefore := exclusive_writing hserver
    have hafter := exclusive_writing hserver'
    have hstarted := (framed hrun).unstarted
    cases sends_of_step hwire with
    | @put thread n _ _ hwriting =>
        rw [serverTrace_put]
        exact Framed.whole_of_put (ih hintact) hbefore hwriting n
    -- nothing was written, so at most a write begins
    | @quiet l server hstep houtcome =>
        rw [serverTrace_server, messagesTo_snoc, written_of_quiet houtcome]
        simp only [List.filter_nil, List.map_nil, List.append_nil]
        have hothers : ∀ u, l.thread ≠ some u →
            (⟨server, w.sinks, w.refusals⟩ : Wire).writing u = w.writing u := fun u hu =>
          writing_of_other w.sinks w.refusals hserver hstep hu fun _ => rfl
        cases hthread : l.thread with
        | none =>
            have hsame : (⟨server, w.sinks, w.refusals⟩ : Wire).writing = w.writing :=
              funext fun u => hothers u (by simp [hthread])
            rw [hsame]
            exact ih hintact
        | some thread =>
            have hnone := writing_none_of_step hstep houtcome hthread
            exact Framed.whole_of_other (ih hintact) hafter
              (fun u hu => hothers u (by simp [hthread, Ne.symm hu])) (by simp [hnone])
              (fun _ _ => rfl) (hstarted thread hnone)
    | @finish l server thread ok connection msg hstep houtcome hwriting hcomplete =>
        have hthread := thread_of_outcome houtcome
        have hothers : ∀ u, u ≠ thread → Wire.writing ⟨server, w.sinks.finish thread connection ok,
            w.refusals + if thread = .acceptor then 1 else 0⟩ u = w.writing u := by
          intro u hu
          refine writing_of_other _ _ hserver hstep (by simp [hthread, Ne.symm hu]) ?_
          rintro rfl
          simp [Ne.symm hu]
        have hwhole := Framed.whole_of_finish (ih (Framed.intact_of_finish hintact)) hbefore hafter
          hwriting hothers hcomplete hintact
        rw [serverTrace_server, messagesTo_snoc, written_of_outcome houtcome hwriting]
        -- the write that ends was to this connection, which is intact
        have hok : .served c = connection → ok = true := by
          rintro rfl
          by_contra hfailed
          simp [Sinks.finish, hfailed] at hintact
        by_cases hc : .served c = connection
        · simpa [hc, hok hc] using hwhole
        · simpa [hc, Ne.symm hc] using hwhole

/-! ## What can be read -/

/-- The decoder reads back what was or is being written to connection `c`. -/
def ReadsBack (encode : ServerToClientMsg → List UInt8)
    (decode : List UInt8 → Option ServerToClientMsg) (trace : List (Wire × Wire.Label)) (w : Wire)
    (c : ThreadId) : Prop :=
  ∀ msg, msg ∈ messagesTo (serverTrace trace) c ∨
    (∃ thread, w.writing thread = some (.served c, msg)) → decode (encode msg) = some msg

section Server

variable {trace : List (Server × Label)} {s : Server} {t : ThreadId} {msg : ServerToClientMsg}

theorem small_of_writing (hsized : Sized encode)
    (hrun : Run (Fires (step maxClients)) Server.init trace s)
    (hfits : ∀ p ∈ trace, Fits p.1 p.2) (hwriting : (s.phase t).writing t = some (c, msg)) :
    (encode msg).length ≤ maxMessageSize.toNat := by
  let decode : List UInt8 → Option ServerToClientMsg := fun _ => some msg
  have hdecode : decode (encode msg) = some msg := rfl
  exact (deliverable_of_fits hsized hdecode hrun hfits (.inl ⟨t, c, hwriting⟩)).small

/-- Whoever writes a message was writing it before. -/
theorem writing_of_written {l : Label} {send : ThreadId × ServerToClientMsg}
    (h : send ∈ written s l) : ∃ t, (s.phase t).writing t = some send := by
  unfold written at h
  split at h
  · next t => exact ⟨t, Option.mem_toList.mp h⟩
  · cases h

/-- No message that was written to a client is too large for its reader. -/
theorem small_of_messagesTo (hsized : Sized encode)
    (hrun : Run (Fires (step maxClients)) Server.init trace s)
    (hfits : ∀ p ∈ trace, Fits p.1 p.2) (hmsg : msg ∈ messagesTo trace c) :
    (encode msg).length ≤ maxMessageSize.toNat := by
  obtain ⟨send, hsend, rfl⟩ := List.mem_map.mp hmsg
  obtain ⟨p, hp, hwritten⟩ := List.mem_flatMap.mp (List.mem_filter.mp hsend).1
  obtain ⟨t, hwriting⟩ := writing_of_written hwritten
  obtain ⟨before, -, hinitial, hbefore, -⟩ := hrun.exists_before hp
  exact small_of_writing hsized hbefore (fun q hq => hfits q (hinitial.subset hq)) hwriting

/-- What is being written to a client in the table is the next of what comes from its
source. -/
theorem stream_of_writing (hrun : Run (Fires (step maxClients)) Server.init trace s)
    (hunraced : ∀ p ∈ trace, Unraced p.1 p.2) (hentry : s.clients.lookup name = some c)
    (hwriting : (s.phase t).writing t = some (c, msg)) (source : Option String) :
    fromSource source (told trace c ++ [msg.content]) <+:
      (switchboardOf trace s).stream source c := by
  obtain ⟨rest, hunsent⟩ : ∃ rest, (switchboardOf trace s).unsent t = (c, msg) :: rest := by
    -- whoever writes to a client in the table serves a request
    have hentered := (handed hrun).entered name c hentry
    cases hphase : s.phase t with
    | serving sender held acts bail =>
        rw [hphase] at hwriting
        cases acts with
        | nil => cases hwriting
        | cons act acts =>
            cases act with
            | write connection forwarded =>
                cases hwriting
                refine ⟨acts.filterMap Act.sent, ?_⟩
                simp [switchboardOf, hphase, Phase.unsent, Act.sent]
            | lock | unlock => cases hwriting
    | refusing reply | welcoming other =>
        rw [hphase] at hwriting
        cases hwriting
        simp [hphase, Phase.entered] at hentered
    | _ =>
        rw [hphase] at hwriting
        cases hwriting
  have hspeaker := (sound_of_run hrun hunraced).1.speaks t (c, msg) (by simp [hunsent])
  rw [fromSource_append, Switchboard.stream, Switchboard.pending]
  by_cases hsource : msg.content.source = source
  · rw [← hsource, hspeaker]
    simp only [hunsent, contentsTo_cons, if_true, fromSource_append]
    exact (List.prefix_append_right_inj _).mpr (List.prefix_append _ _)
  · have hnone : fromSource source [msg.content] = [] := by simp [fromSource, hsource]
    rw [hnone, List.append_nil]
    exact List.prefix_append _ _

end Server

/-! ## What is read -/

private theorem length_le_of_frames (msgs : List ServerToClientMsg) :
    msgs.length ≤ (msgs.flatMap (frame encode)).length := by
  induction msgs with
  | nil => rfl
  | cons msg rest ih =>
      rw [List.flatMap_cons, List.length_append, length_frame, List.length_cons]
      omega

/-- Reads of the first bytes of some frames. -/
theorem reads_of_frames {decode : List UInt8 → Option ServerToClientMsg}
    {msgs : List ServerToClientMsg} (hinverts : ∀ msg ∈ msgs, decode (encode msg) = some msg)
    (hsmall : ∀ msg ∈ msgs, (encode msg).length ≤ maxMessageSize.toNat) (cut : ℕ) {calls : ℕ}
    (hcalls : msgs.length < calls) :
    ∃ k last, MessageReader.readAll decode calls ⟨(msgs.flatMap (frame encode)).take cut, false⟩ =
        (msgs.take k).map (fun msg => some (.ok msg)) ++ [last] ∧
      (last = none ∨ last = some (.error (.cannotRead .unexpectedEof))) ∧
      ∀ k', k' ≤ msgs.length → ((msgs.take k').flatMap (frame encode)).length ≤ cut → k' ≤ k := by
  -- by induction on the messages: has the first frame arrived?
  induction msgs generalizing cut calls with
  | nil =>
      obtain ⟨calls, rfl⟩ := Nat.exists_eq_succ_of_ne_zero (Nat.ne_of_gt hcalls)
      refine ⟨0, none, ?_, .inl rfl, fun k' hk' _ => hk'⟩
      rw [List.flatMap_nil, List.take_nil, MessageReader.readAll, read_of_short (by simp)]
      rfl
  | cons msg rest ih =>
      obtain ⟨calls, rfl⟩ := Nat.exists_eq_succ_of_ne_zero (Nat.ne_of_gt (Nat.zero_lt_of_lt hcalls))
      have hmsg := hsmall msg (by simp)
      rw [List.flatMap_cons]
      by_cases hfirst : (frame encode msg).length ≤ cut
      · obtain ⟨k, last, hreads, hlast, hmax⟩ := ih
          (fun other hother => hinverts other (List.mem_cons_of_mem _ hother))
          (fun other hother => hsmall other (List.mem_cons_of_mem _ hother))
          (cut - (frame encode msg).length) (by simpa using hcalls)
        refine ⟨k + 1, last, ?_, hlast, fun k' hk' hroom => ?_⟩
        · rw [List.take_append, List.take_of_length_le hfirst, MessageReader.readAll,
            read_frame (hinverts msg (by simp)) hmsg]
          simp only [hreads, List.take_succ_cons, List.map_cons, List.cons_append]
        · cases k' with
          | zero => omega
          | succ k' =>
              rw [List.take_succ_cons, List.flatMap_cons, List.length_append] at hroom
              exact Nat.succ_le_succ (hmax k' (by simpa using hk') (by omega))
      -- what has arrived ends in this frame
      · have hsize : (encode msg).length < 2 ^ 32 := lt_of_le_of_lt hmsg (by decide)
        have hunreadable : ¬ ((encode msg).length ≤ maxMessageSize.toNat ∧
            (frame encode msg).length ≤ cut) := fun h => hfirst h.2
        refine ⟨0, lastRead encode (msg :: rest) cut 0, ?_, ?_, fun k' hk' hroom => ?_⟩
        · rw [readAll_unreadable hsize hunreadable]
          rfl
        · simp only [lastRead, List.getElem?_cons_zero, List.take_zero, writeAll_nil,
            List.length_nil, Nat.not_lt.mpr hmsg, if_false]
          split
          · exact .inl rfl
          · exact .inr rfl
        · cases k' with
          | zero => exact le_rfl
          | succ k' =>
              rw [List.take_succ_cons, List.flatMap_cons, List.length_append] at hroom
              omega

theorem handler_of_writing {thread : Thread} {msg : ServerToClientMsg}
    (hwriting : w.writing thread = some (.served c, msg)) :
    ∃ t, (w.server.phase t).writing t = some (c, msg) := by
  cases thread with
  | acceptor =>
      simp only [Wire.writing] at hwriting
      split at hwriting <;> cases hwriting
  | handler t =>
      obtain ⟨send, hsend, heq⟩ := Option.map_eq_some_iff.mp hwriting
      cases heq
      exact ⟨t, hsend⟩

/-- The bytes on the connection of a client in the table are the first of the frames of what
it is told, and of one message more. -/
theorem frames_of_run (hrun : Run (Fires (Wire.step encode maxClients)) Wire.init trace w)
    (hintact : w.sinks.broken (.served c) = false) :
    ∃ msgs, w.sinks.sent (.served c) =
        (msgs.flatMap (frame encode)).take (w.sinks.sent (.served c)).length ∧
      (messagesTo (serverTrace trace) c).flatMap (frame encode) <+: w.sinks.sent (.served c) ∧
      (msgs = messagesTo (serverTrace trace) c ∨ ∃ thread msg,
        msgs = messagesTo (serverTrace trace) c ++ [msg] ∧
        w.writing thread = some (.served c, msg)) := by
  have hwhole := whole_of_run hrun hintact
  by_cases hbusy : ∃ thread msg, w.writing thread = some (.served c, msg)
  · obtain ⟨thread, msg, hwriting⟩ := hbusy
    have hsent := hwhole.busy thread msg hwriting
    have hinitial : w.sinks.sent (.served c) <+:
        (messagesTo (serverTrace trace) c ++ [msg]).flatMap (frame encode) := by
      rw [hsent, List.flatMap_append, List.flatMap_singleton]
      exact (List.prefix_append_right_inj _).mpr (List.take_prefix _ _)
    refine ⟨_, List.prefix_iff_eq_take.mp hinitial, ?_, .inr ⟨thread, msg, rfl, hwriting⟩⟩
    rw [hsent]
    exact List.prefix_append _ _
  · have hidle : ∀ thread msg, w.writing thread ≠ some (.served c, msg) := by simpa using hbusy
    have hsent := hwhole.idle hidle
    refine ⟨messagesTo (serverTrace trace) c, ?_, ?_, .inl rfl⟩
    · rw [hsent, List.take_length]
    · rw [hsent]

/-! ## The client -/

/-- **A client reads what is said in the room.**  Take any state of a run without a raced join
in which the messages of every request fit a reader, and a connection in the table on which no
write has failed.  However much of its bytes has arrived, the calls of `MessageReader::read`
return messages, and then `None` or that a message is cut.  From each source these messages
are the first of those in the inbox of the member; and if all bytes have arrived, everything
that was written to the connection is among them. -/
theorem reads_what_is_said {decode : List UInt8 → Option ServerToClientMsg}
    (hsized : Sized encode) (hrun : Run (Fires (Wire.step encode maxClients)) Wire.init trace w)
    (hunraced : ∀ p ∈ serverTrace trace, Unraced p.1 p.2)
    (hfits : ∀ p ∈ serverTrace trace, Fits p.1 p.2)
    (hinverts : ReadsBack encode decode trace w c)
    (hentry : w.server.clients.lookup name = some c)
    (hintact : w.sinks.broken (.served c) = false) (arrived : ℕ) {calls : ℕ}
    (hcalls : (w.sinks.sent (.served c)).length + 1 < calls) :
    ∃ msgs last, MessageReader.readAll decode calls
          ⟨(w.sinks.sent (.served c)).take arrived, false⟩ =
        msgs.map (fun msg => some (.ok msg)) ++ [last] ∧
      (last = none ∨ last = some (.error (.cannotRead .unexpectedEof))) ∧
      (∀ source, fromSource source (msgs.map ServerToClientMsg.content) <+:
        fromSource source ((roomOf (serverTrace trace)).inbox name)) ∧
      ((w.sinks.sent (.served c)).length ≤ arrived →
        messagesTo (serverTrace trace) c <+: msgs) := by
  have hserver := run_of_wire hrun
  obtain ⟨msgs, hsent, hframes, hmsgs⟩ := frames_of_run hrun hintact
  have hwhole := hframes.length_le
  have htold : messagesTo (serverTrace trace) c <+: msgs := by
    rcases hmsgs with rfl | ⟨_, _, rfl, -⟩
    · exact List.prefix_rfl
    · exact List.prefix_append _ _
  have hinbox : ∀ source, (switchboardOf (serverTrace trace) w.server).stream source c <+:
      fromSource source ((roomOf (serverTrace trace)).inbox name) := by
    intro source
    exact ((told_by_sources hserver hunraced).2 name c hentry source).1
  have hmem : ∀ msg ∈ msgs, msg ∈ messagesTo (serverTrace trace) c ∨
      ∃ thread, w.writing thread = some (.served c, msg) := by
    intro msg hmsg
    rcases hmsgs with rfl | ⟨thread, next, rfl, hwriting⟩
    · exact .inl hmsg
    · rcases List.mem_append.mp hmsg with hmsg | hmsg
      · exact .inl hmsg
      · obtain rfl := List.mem_singleton.mp hmsg
        exact .inr ⟨thread, hwriting⟩
  have hsmall : ∀ msg ∈ msgs, (encode msg).length ≤ maxMessageSize.toNat := by
    intro msg hmsg
    rcases hmem msg hmsg with htold | ⟨thread, hwriting⟩
    · exact small_of_messagesTo hsized hserver hfits htold
    · obtain ⟨t, hwriting⟩ := handler_of_writing hwriting
      exact small_of_writing hsized hserver hfits hwriting
  have hlength : msgs.length < calls := by
    have hcount := @length_le_of_frames encode (messagesTo (serverTrace trace) c)
    rcases hmsgs with rfl | ⟨_, _, rfl, -⟩
    · omega
    · rw [List.length_append, List.length_singleton]
      omega
  -- all that comes from one source is in the inbox
  have hsources : ∀ source, fromSource source (msgs.map ServerToClientMsg.content) <+:
      fromSource source ((roomOf (serverTrace trace)).inbox name) := by
    intro source
    refine List.IsPrefix.trans ?_ (hinbox source)
    rcases hmsgs with rfl | ⟨thread, msg, rfl, hwriting⟩
    · rw [← told_eq_map]
      exact List.prefix_append _ _
    · obtain ⟨t, hwriting⟩ := handler_of_writing hwriting
      rw [List.map_append, ← told_eq_map]
      exact stream_of_writing hserver hunraced hentry hwriting source
  obtain ⟨k, last, hreads, hlast, hmax⟩ := reads_of_frames
    (fun msg hmsg => hinverts msg (hmem msg hmsg)) hsmall
    (min arrived (w.sinks.sent (.served c)).length) hlength
  refine ⟨msgs.take k, last, ?_, hlast, fun source => ?_, fun hall => ?_⟩
  · rw [hsent, List.take_take, hreads]
  · refine List.IsPrefix.trans ?_ (hsources source)
    exact ((List.take_prefix k msgs).map _).filter _
  · have hcomplete := List.prefix_iff_eq_take.mp htold
    rw [hcomplete] at hwhole
    have hle := hmax _ htold.length_le (by omega)
    rw [hcomplete]
    exact List.take_prefix_take_left hle

/-- A client that has its `Welcome`, a message of another client and the first bytes of a
`Pong`. -/
theorem reads_what_is_said_pong :
    ∃ trace w, Run (Fires (Wire.step ServerToClientMsg.toVec 2)) Wire.init trace w ∧
      messagesTo (serverTrace trace) 0 = [.welcome, .message "b" "hi"] ∧
      w.sinks.sent (.served 0) = frame ServerToClientMsg.toVec .welcome ++
        frame ServerToClientMsg.toVec (.message "b" "hi") ++ [6, 0, 0] ∧
      ∃ msgs last, MessageReader.readAll
            (decodeOf ServerToClientMsg.toVec [.welcome, .message "b" "hi", .pong]) 80
            ⟨(w.sinks.sent (.served 0)).take 70, false⟩ =
          msgs.map (fun msg => some (.ok msg)) ++ [last] ∧
        (last = none ∨ last = some (.error (.cannotRead .unexpectedEof))) ∧
        (∀ source, fromSource source (msgs.map ServerToClientMsg.content) <+:
          fromSource source ((roomOf (serverTrace trace)).inbox "a")) ∧
        ((w.sinks.sent (.served 0)).length ≤ 70 →
          messagesTo (serverTrace trace) 0 <+: msgs) := by
  let table := [("a", 0), ("b", 1)]
  obtain ⟨trace, w, hrun, hp⟩ := exists_run_of_replay (Wire.step ServerToClientMsg.toVec 2)
    Wire.init
    ((connects 0 ++ connects 1 ++ (joins 0 "a").take 3).map .server ++ [.put (.handler 0) 13] ++
      ((joins 0 "a").drop 3 ++ (joins 1 "b").take 3).map .server ++ [.put (.handler 1) 13] ++
      ((joins 1 "b").drop 3).map .server ++
      [.server (.handler 1 (.read (.msg (.sendDM "a" "hi")))),
        .server (.handler 1 (.acquire table)), .server (.handler 1 (.acquire [])),
        .server (.handler 1 (.acquire [])), .put (.handler 1) 20,
        .server (.handler 0 (.read (.msg .ping))), .server (.handler 0 (.acquire table)),
        .put (.handler 1) 23,
        .server (.handler 1 (.wrote true)), .server (.handler 1 .release),
        .server (.handler 0 (.acquire [])), .put (.handler 0) 3])
    (fun r => decide ((∀ p ∈ serverTrace r.1, unraced p = true ∧ Fits p.1 p.2) ∧
      r.2.sinks.sent (.served 0) = frame ServerToClientMsg.toVec .welcome ++
        frame ServerToClientMsg.toVec (.message "b" "hi") ++ [6, 0, 0] ∧
      r.2.sinks.broken (.served 0) = false ∧ r.2.server.clients.lookup "a" = some 0 ∧
      messagesTo (serverTrace r.1) 0 = [.welcome, .message "b" "hi"] ∧ r.2.server.spawned = 2 ∧
      (r.2.server.phase 0).writing 0 = some (0, .pong) ∧
      (r.2.server.phase 1).writing 1 = none))
    (by decide +kernel)
  obtain ⟨hsteps, hsent, hintact, hentry, htold, hspawned, hphase, hphase'⟩ := of_decide_eq_true hp
  have hserver := run_of_wire hrun
  have hunraced := unraced_of_spawned hserver fun p hp => (hsteps p hp).1
  have hinverts : ReadsBack ServerToClientMsg.toVec
      (decodeOf ServerToClientMsg.toVec [.welcome, .message "b" "hi", .pong]) trace w 0 := by
    rintro msg (hmsg | ⟨thread, hwriting⟩)
    · rw [htold] at hmsg
      simp only [List.mem_cons, List.not_mem_nil, or_false] at hmsg
      rcases hmsg with rfl | rfl <;> decide
    · obtain ⟨t, hwriting⟩ := handler_of_writing hwriting
      have ht := lt_spawned (u := t) hserver fun habsent => by
        simp [habsent, Phase.writing] at hwriting
      -- only handler 0 is writing
      obtain rfl | rfl := Nat.le_one_iff_eq_zero_or_eq_one.mp (Nat.lt_succ_iff.mp (hspawned ▸ ht))
      · rw [hphase] at hwriting
        cases hwriting
        decide
      · rw [hphase'] at hwriting
        cases hwriting
  refine ⟨trace, w, hrun, htold, hsent, reads_what_is_said sized_toVec hrun hunraced
    (fun p hp => (hsteps p hp).2) hinverts hentry hintact 70 ?_⟩
  rw [hsent]
  decide +kernel

end RustCourse.Lesson08
