import Mathlib.Order.Nat
import RustCourse.Lib.Codec
import RustCourse.Lib.Lines

/-!
# The lesson 10 codec

`lessons/10/exercises/src/reader.rs` and `writer.rs`; lesson 10_parallel has the same two
files.  A `MessageReader` is its loaded bytes, as in lesson 09, but a full buffer without a
newline fails an assertion here, and `recv` is a future: `select!` may drop it while it
waits for a read.  Then it has returned nothing, what it loaded before stays loaded, and
the read has consumed nothing.

`recv` takes what the environment decides about its reads as a list, and is undefined if
there are too few or too many of these decisions.

## Strategy

What a call answers is said on the bytes that are loaded followed by those not read yet
(`Answers`), so neither the cuts nor a dropped call shows.  Successive calls are then those of
`Lib/Codec`, with a dropped call as one that idles, and the round trip is its rule.
-/

namespace RustCourse.Lesson10

open Codec Lines

/-! ## The buffer -/

/-- The length of `buffer`. -/
def bufferSize : ℕ := 1024

/-- `b'\n'` -/
def newline : UInt8 := 10

variable {T σ ℓ : Type*}

/-! ## The writer -/

/-- `MessageWriter::send`; `encode` is `serde_json::to_vec`. -/
def MessageWriter.send (encode : T → List UInt8) (stream : List UInt8) (msg : T) : List UInt8 :=
  stream ++ encode msg ++ [newline]

/-- The bytes written by one `send` for each message. -/
def sendAll (encode : T → List UInt8) (msgs : List T) : List UInt8 :=
  msgs.foldl (MessageWriter.send encode) []

theorem foldl_send (encode : T → List UInt8) (msgs : List T) (stream : List UInt8) :
    msgs.foldl (MessageWriter.send encode) stream =
      stream ++ unlines newline (msgs.map encode) := by
  induction msgs generalizing stream with
  | nil => simp
  | cons msg rest ih => simp [MessageWriter.send, ih]

theorem sendAll_eq (encode : T → List UInt8) (msgs : List T) :
    sendAll encode msgs = unlines newline (msgs.map encode) :=
  foldl_send encode msgs []

/-! ## The reader -/

/-- The bytes that were read and not handled, of which the buffer has room for. -/
structure MessageReader where
  loaded : List UInt8
  fits : loaded.length ≤ bufferSize
  deriving DecidableEq

/-- What becomes of `client.read(buf).await` when `buf` has the length `free`. -/
inductive ReadOutcome (free : ℕ)
  /-- `Ok(n)` for `n > 0`, and the bytes read -/
  | bytes (bs : List UInt8) (hpos : 0 < bs.length) (hfit : bs.length ≤ free)
  /-- `Ok(0)` -/
  | eof
  | err
  /-- the future is dropped while it waits -/
  | dropped

namespace MessageReader

/-- What becomes of a `recv`; `None` is `eof`. -/
inductive Outcome (T : Type*)
  | msg (msg : T)
  /-- `serde_json::from_slice` failed -/
  | malformed
  /-- the stream failed -/
  | err
  | eof
  /-- `assert!(self.loaded < self.buffer.len())` failed -/
  | panicked
  | dropped
  deriving DecidableEq, Repr

/-- The future was not dropped. -/
def Outcome.completed : Outcome T → Bool
  | .dropped => false
  | _ => true

/-- `MessageReader::new` -/
def new : MessageReader := ⟨[], Nat.zero_le _⟩

/-- The length of `buffer[loaded..]`. -/
def free (r : MessageReader) : ℕ := bufferSize - r.loaded.length

/-- `copy_within(position + 1.., 0)` -/
def shift (r : MessageReader) : MessageReader where
  loaded := afterLine newline r.loaded
  fits := by
    have := r.fits
    rw [length_afterLine]
    omega

/-- One turn of the loop of `recv` up to the `read`: what it returns, if it does. -/
def inspect (decode : List UInt8 → Option T) (r : MessageReader) :
    Option (Outcome T × MessageReader) :=
  if newline ∈ r.loaded then
    match decode (firstLine newline r.loaded) with
    | some msg => some (.msg msg, r.shift)
    -- the line stays in the buffer
    | none => some (.malformed, r)
  else if bufferSize ≤ r.loaded.length then some (.panicked, r)
  else none

/-- `self.loaded += read_bytes` after a read of bytes that fit. -/
def load (r : MessageReader) (bs : List UInt8) (hfit : bs.length ≤ r.free) : MessageReader where
  loaded := r.loaded ++ bs
  fits := by
    have := r.fits
    unfold free at hfit
    rw [List.length_append]
    omega

/-- `recv` -/
def recv (decode : List UInt8 → Option T) (read : σ → (free : ℕ) → ℓ → ReadOutcome free × σ) :
    List ℓ → MessageReader → σ → Option (Outcome T × MessageReader × σ)
  | [], r, client => (r.inspect decode).map fun result => (result.1, result.2, client)
  | choice :: rest, r, client =>
      match r.inspect decode, read client r.free choice with
      | none, (.bytes bs _ hfit, client') => recv decode read rest (r.load bs hfit) client'
      | none, (.eof, client') => if rest.isEmpty then some (.eof, r, client') else none
      | none, (.err, client') => if rest.isEmpty then some (.err, r, client') else none
      | none, (.dropped, client') => if rest.isEmpty then some (.dropped, r, client') else none
      | some _, _ => none

/-- The outcomes of successive calls of `recv`, of which each makes its own reads. -/
def recvAll (decode : List UInt8 → Option T) (read : σ → (free : ℕ) → ℓ → ReadOutcome free × σ) :
    List (List ℓ) → MessageReader → σ → Option (List (Outcome T) × MessageReader × σ)
  | [], r, client => some ([], r, client)
  | reads :: calls, r, client =>
      (recv decode read reads r client).bind fun (got, r', client') =>
        (recvAll decode read calls r' client').map fun (gots, last) => (got :: gots, last)

end MessageReader

/-! ## A client that sends some bytes -/

/-- What the environment decides about one `read`. -/
inductive Delivery
  /-- this many bytes are delivered, or as many as come closest to it: at least one and no
  more than fit and are left -/
  | bytes (n : ℕ)
  | drop
  deriving DecidableEq, Repr

/-- How many of the bytes left are delivered into a buffer with this much room. -/
def amount (free left n : ℕ) : ℕ := max 1 (min n (min free left))

theorem length_take_amount {free : ℕ} {unread : List UInt8} (hroom : 0 < free)
    (hleft : 0 < unread.length) (n : ℕ) :
    0 < (unread.take (amount free unread.length n)).length ∧
      (unread.take (amount free unread.length n)).length ≤ free := by
  rw [List.length_take]
  unfold amount
  omega

/-- `client.read(buf).await` for a client that will send `unread` and then no more; a read
that is dropped consumes nothing. -/
def deliver (unread : List UInt8) (free : ℕ) : Delivery → ReadOutcome free × List UInt8
  | .bytes n =>
      if h : 0 < free ∧ 0 < unread.length then
        (.bytes (unread.take (amount free unread.length n)) (length_take_amount h.1 h.2 n).1
          (length_take_amount h.1 h.2 n).2, unread.drop (amount free unread.length n))
      -- `Ok(0)` is also the answer to a `read` into an empty buffer
      else (.eof, unread)
  | .drop => (.dropped, unread)

namespace MessageReader

/-! ## What a `recv` comes to -/

variable {decode : List UInt8 → Option T}

/-- **What a `recv` can come to** when `text` is what is loaded and then what is not read
yet, and what of it is left. -/
inductive Answers (decode : List UInt8 → Option T) (text : List UInt8) :
    Outcome T → List UInt8 → Prop
  | msg {msg} : newline ∈ text → decode (firstLine newline text) = some msg →
      Answers decode text (.msg msg) (afterLine newline text)
  | malformed : newline ∈ text → decode (firstLine newline text) = none →
      Answers decode text .malformed text
  | eof : newline ∉ text → Answers decode text .eof text
  | panicked : bufferSize ≤ (firstLine newline text).length → Answers decode text .panicked text
  | dropped : Answers decode text .dropped text

theorem answers_of_inspect {r r' : MessageReader} {got : Outcome T} {unread : List UInt8}
    (h : r.inspect decode = some (got, r')) :
    Answers decode (r.loaded ++ unread) got (r'.loaded ++ unread) := by
  unfold inspect at h
  split at h
  · next hline =>
      have hmem : newline ∈ r.loaded ++ unread := List.mem_append_left _ hline
      split at h <;> cases h
      · next hdecode =>
          show Answers decode _ _ (afterLine newline r.loaded ++ unread)
          rw [← afterLine_append hline]
          exact .msg hmem (by rw [firstLine_append hline, hdecode])
      · next hdecode => exact .malformed hmem (by rw [firstLine_append hline, hdecode])
  · next hline =>
      split at h <;> cases h
      next hfull => exact .panicked (hfull.trans (length_le_firstLine hline))

/-- A `recv` that reads has found no newline, and has room. -/
theorem reads_of_inspect {r : MessageReader} (h : r.inspect decode = none) :
    newline ∉ r.loaded ∧ 0 < r.free := by
  unfold inspect at h
  split at h
  · split at h <;> cases h
  · next hline =>
      split at h
      · cases h
      · next hfull =>
          refine ⟨hline, ?_⟩
          unfold free
          omega

/-- **The outcome of a `recv`** is decided by the bytes, and by whether it was dropped. -/
theorem answers_of_recv {reads : List Delivery} {r r' : MessageReader} {unread unread' : List UInt8}
    {got : Outcome T} (h : recv decode deliver reads r unread = some (got, r', unread')) :
    Answers decode (r.loaded ++ unread) got (r'.loaded ++ unread') := by
  induction reads generalizing r unread with
  | nil =>
      obtain ⟨result, hresult, heq⟩ := Option.map_eq_some_iff.mp h
      cases heq
      exact answers_of_inspect hresult
  | cons choice rest ih =>
      cases hinspect : r.inspect decode with
      | some result => simp [recv, hinspect] at h
      | none =>
          obtain ⟨hline, hroom⟩ := reads_of_inspect hinspect
          cases choice with
          | bytes n =>
              by_cases hleft : 0 < unread.length
              · have hread : 0 < r.free ∧ 0 < unread.length := ⟨hroom, hleft⟩
                simp only [recv, hinspect, deliver, hread, and_self, dif_pos] at h
                have hanswer := ih h
                rwa [load, List.append_assoc, List.take_append_drop] at hanswer
              · simp only [recv, hinspect, deliver, hleft, and_false, dif_neg,
                  not_false_eq_true] at h
                split at h <;> cases h
                rw [List.length_eq_zero_iff.mp (Nat.eq_zero_of_not_pos hleft), List.append_nil]
                exact .eof hline
          | drop =>
              simp only [recv, hinspect, deliver] at h
              split at h <;> cases h
              exact .dropped

/-- **Every `recv` completes or is dropped**, whatever its client does: each read but the
last takes bytes. -/
theorem exists_recv (behaviour : ℕ → Delivery) (r : MessageReader) (unread : List UInt8) :
    ∃ n, (recv decode deliver ((List.range n).map behaviour) r unread).isSome := by
  induction hlength : unread.length using Nat.strongRecOn generalizing behaviour r unread with
  | _ length ih =>
      cases hinspect : r.inspect decode with
      | some result => exact ⟨0, by simp [recv, hinspect]⟩
      | none =>
          obtain ⟨-, hroom⟩ := reads_of_inspect hinspect
          cases hchoice : behaviour 0 with
          | drop => exact ⟨1, by simp [recv, hinspect, deliver, hchoice]⟩
          | bytes k =>
              by_cases hleft : 0 < unread.length
              · have hread : 0 < r.free ∧ 0 < unread.length := ⟨hroom, hleft⟩
                have hshorter : (unread.drop (amount r.free unread.length k)).length < length := by
                  rw [List.length_drop, ← hlength]
                  unfold amount
                  omega
                obtain ⟨m, hm⟩ := ih _ hshorter (behaviour ∘ Nat.succ)
                  (r.load _ (length_take_amount hroom hleft k).2) _ rfl
                refine ⟨m + 1, ?_⟩
                rw [List.range_succ_eq_map, List.map_cons, List.map_map, hchoice]
                simp only [recv, hinspect, deliver, hread, and_self, dif_pos]
                exact hm
              · refine ⟨1, ?_⟩
                simp [recv, hinspect, deliver, hchoice, hleft]

/-! ## Which calls are dropped -/

private theorem not_dropped_of_inspect {r r' : MessageReader} {got : Outcome T}
    (h : r.inspect decode = some (got, r')) : got ≠ .dropped := by
  unfold inspect at h
  split at h
  · split at h <;> cases h <;> simp
  · split at h <;> cases h
    simp

/-- **A `recv` is dropped** if its last read is, and only then. -/
theorem dropped_iff_of_recv {reads : List Delivery} {r r' : MessageReader}
    {unread unread' : List UInt8} {got : Outcome T}
    (h : recv decode deliver reads r unread = some (got, r', unread')) :
    got = .dropped ↔ reads.getLast? = some .drop := by
  induction reads generalizing r unread with
  | nil =>
      obtain ⟨result, hresult, heq⟩ := Option.map_eq_some_iff.mp h
      cases heq
      simpa using not_dropped_of_inspect hresult
  | cons choice rest ih =>
      cases hinspect : r.inspect decode with
      | some result => simp [recv, hinspect] at h
      | none =>
          cases choice with
          | bytes n =>
              by_cases hread : 0 < r.free ∧ 0 < unread.length
              · simp only [recv, hinspect, deliver, hread, and_self, dif_pos] at h
                rw [ih h, List.getLast?_cons]
                cases rest.getLast? <;> simp
              · simp only [recv, hinspect, deliver, hread, dif_neg, not_false_eq_true] at h
                split at h <;> cases h
                next hlast => simp [List.isEmpty_iff.mp hlast]
          | drop =>
              simp only [recv, hinspect, deliver] at h
              split at h <;> cases h
              next hlast => simp [List.isEmpty_iff.mp hlast]

private theorem dropped_iff_of_recvAll {calls : List (List Delivery)} {r r' : MessageReader}
    {unread unread' : List UInt8} {gots : List (Outcome T)}
    (h : recvAll decode deliver calls r unread = some (gots, r', unread')) :
    List.Forall₂ (fun reads got => got = .dropped ↔ reads.getLast? = some .drop) calls gots := by
  induction calls generalizing r unread gots with
  | nil =>
      cases h
      exact .nil
  | cons reads calls ih =>
      obtain ⟨⟨got, r₁, unread₁⟩, hfirst, hcalls⟩ := Option.bind_eq_some_iff.mp h
      obtain ⟨⟨rest, last⟩, hrest, heq⟩ := Option.map_eq_some_iff.mp hcalls
      cases heq
      exact .cons (dropped_iff_of_recv hfirst) (ih hrest)

/-! ## Successive calls -/

theorem calls_of_recvAll {calls : List (List Delivery)} {r r' : MessageReader}
    {unread unread' : List UInt8} {gots : List (Outcome T)}
    (h : recvAll decode deliver calls r unread = some (gots, r', unread')) :
    Calls (Answers decode) (r.loaded ++ unread) gots (r'.loaded ++ unread') := by
  induction calls generalizing r unread gots with
  | nil =>
      cases h
      exact .nil _
  | cons reads calls ih =>
      obtain ⟨⟨got, r₁, unread₁⟩, hfirst, hcalls⟩ := Option.bind_eq_some_iff.mp h
      obtain ⟨⟨rest, last⟩, hrest, heq⟩ := Option.map_eq_some_iff.mp hcalls
      cases heq
      exact .cons (answers_of_recv hfirst) (ih hrest)

end MessageReader

/-! ## The round trip -/

open MessageReader

variable {encode : T → List UInt8} {decode : List UInt8 → Option T}

/-- A `recv` that has the encoding of `msgs` before it is dropped, or returns the first of
them, or finds that there is none. -/
theorem decodes_of_answers {msgs : List T} {got : Outcome T} {rest : List UInt8}
    (hinverts : ∀ msg, decode (encode msg) = some msg) (hline : ∀ msg, newline ∉ encode msg)
    (hshort : ∀ msg ∈ msgs, (encode msg).length ≤ 1023)
    (h : Answers decode (unlines newline (msgs.map encode)) got rest) :
    Decodes (fun msgs => unlines newline (msgs.map encode)) Outcome.msg .eof
      (fun got => !got.completed) msgs got rest := by
  cases msgs with
  | nil =>
      cases h with
      | dropped => exact .idles rfl
      | eof => exact .done
      | msg hmem | malformed hmem => exact absurd hmem (List.not_mem_nil)
      | panicked hfull => exact absurd hfull (by simp [firstLine, bufferSize])
  | cons msg more =>
      have hfirst :
          firstLine newline (unlines newline ((msg :: more).map encode)) = encode msg := by
        rw [List.map_cons, unlines_cons]
        exact firstLine_line (hline msg)
      cases h with
      | dropped => exact .idles rfl
      | msg _ hdecode =>
          rw [hfirst, hinverts, Option.some.injEq] at hdecode
          rw [List.map_cons, unlines_cons, afterLine_line (hline msg), ← hdecode]
          exact .item
      | malformed _ hdecode =>
          rw [hfirst, hinverts] at hdecode
          cases hdecode
      | panicked hfull =>
          have hlength : (encode msg).length ≤ 1023 := hshort msg (by simp)
          rw [hfirst, bufferSize] at hfull
          omega
      | eof hmem => exact absurd (by simp) hmem

/-- **The codec round trip.**  However the bytes are delivered and whichever calls are
dropped while they wait, the calls of `recv` that complete return the messages that were
sent, in order and each once, and then `None`; none of them panics.

A call is dropped only where its last read is, so it is the environment that decides which
calls complete.  Once every byte has been delivered and taken, all messages have been
returned, and behind them nothing but `None`.  In every state that calls lead to, the next
call comes to an end again, and if none of its reads is dropped it returns the first message
that has not been returned yet, or `None` if all have. -/
theorem completed_sendAll {msgs : List T} (hinverts : ∀ msg, decode (encode msg) = some msg)
    (hline : ∀ msg, newline ∉ encode msg) (hshort : ∀ msg ∈ msgs, (encode msg).length ≤ 1023)
    {calls : List (List Delivery)} {gots : List (Outcome T)} {r : MessageReader}
    {unread : List UInt8}
    (h : recvAll decode deliver calls .new (sendAll encode msgs) = some (gots, r, unread)) :
    gots.filter Outcome.completed <+:
        msgs.map Outcome.msg ++ List.replicate gots.length Outcome.eof ∧
      .panicked ∉ gots ∧
      List.Forall₂ (fun reads got => got = .dropped ↔ reads.getLast? = some .drop) calls gots ∧
      (r.loaded = [] → unread = [] → ∃ n,
        gots.filter Outcome.completed = msgs.map Outcome.msg ++ List.replicate n Outcome.eof) ∧
      ∀ behaviour : ℕ → Delivery, ∃ n next r' unread',
        recv decode deliver ((List.range n).map behaviour) r unread = some (next, r', unread') ∧
        ((∀ i, behaviour i ≠ .drop) →
          next = ((msgs.map Outcome.msg)[(gots.filter Outcome.completed).length]?).getD .eof) := by
  have hcalls := calls_of_recvAll h
  rw [sendAll_eq] at hcalls
  have hdecodes : ∀ msgs got rest, (∀ msg ∈ msgs, (encode msg).length ≤ 1023) →
      Answers decode (unlines newline (msgs.map encode)) got rest →
      Decodes (fun msgs => unlines newline (msgs.map encode)) Outcome.msg .eof
        (fun got => !got.completed) msgs got rest :=
    fun _ _ _ hshort hanswer => decodes_of_answers hinverts hline hshort hanswer
  have hinitial := hcalls.filter_prefix (fun msgs => unlines newline (msgs.map encode)) Outcome.msg
    .eof (fun got => !got.completed) hshort (fun _ => rfl) rfl hdecodes
  have hleft := hcalls.rest_eq (fun msgs => unlines newline (msgs.map encode)) Outcome.msg
    .eof (fun got => !got.completed) hshort (fun _ => rfl) hdecodes
  simp only [Bool.not_not] at hinitial hleft
  refine ⟨hinitial, ?_, dropped_iff_of_recvAll h, fun hloaded hunread => ?_, fun behaviour => ?_⟩
  · intro hpanicked
    have hmem := hinitial.subset (List.mem_filter.mpr ⟨hpanicked, rfl⟩)
    simp at hmem
  · rw [hloaded, hunread, List.nil_append, eq_comm, unlines_eq_nil_iff, List.map_eq_nil_iff,
      List.drop_eq_nil_iff] at hleft
    -- the results reach beyond the messages
    exact exists_eq_append_replicate hinitial (by simpa using hleft)
  · obtain ⟨n, hsome⟩ := @exists_recv _ decode behaviour r unread
    obtain ⟨⟨next, r', unread'⟩, hrecv⟩ := Option.isSome_iff_exists.mp hsome
    refine ⟨n, next, r', unread', hrecv, fun hundropped => ?_⟩
    have hcompleted : next ≠ .dropped := by
      intro hdropped
      have hlast := List.mem_of_getLast? ((dropped_iff_of_recv hrecv).mp hdropped)
      obtain ⟨i, -, hi⟩ := List.mem_map.mp hlast
      exact hundropped i hi
    have hnext := hcalls.next_eq (fun msgs => unlines newline (msgs.map encode)) Outcome.msg .eof
      (fun got => !got.completed) hshort (fun _ => rfl) hdecodes (answers_of_recv hrecv)
      (by cases next <;> first | rfl | exact absurd rfl hcompleted)
    simpa only [Bool.not_not] using hnext

/-- `serde_json::to_vec` on a boolean. -/
def encodeBool : Bool → List UInt8
  | true => [116, 114, 117, 101]
  | false => [102, 97, 108, 115, 101]

/-- `serde_json::from_slice` for a boolean, on what `to_vec` writes. -/
def decodeBool (line : List UInt8) : Option Bool :=
  if line = encodeBool true then some true
  else if line = encodeBool false then some false
  else none

/-- A call is dropped in the middle of the first of two booleans, and a later one gets the
second in two pieces.  Everything has been delivered after that, and a further call can only
return `None`. -/
theorem completed_sendAll_bools :
    recvAll decodeBool deliver
        [[.bytes 3, .drop], [.bytes 4], [.bytes 3, .bytes 1], [.bytes 1]] .new
        (sendAll encodeBool [true, false]) =
      some ([.dropped, .msg true, .msg false, .eof], .new, []) ∧
    (∃ n, [Outcome.msg true, .msg false, .eof] =
      [true, false].map Outcome.msg ++ List.replicate n Outcome.eof) ∧
    ∀ behaviour : ℕ → Delivery, ∃ n next r' unread',
      recv decodeBool deliver ((List.range n).map behaviour) .new [] = some (next, r', unread') ∧
      ((∀ i, behaviour i ≠ .drop) → next = .eof) := by
  have hcalls : recvAll decodeBool deliver
      [[.bytes 3, .drop], [.bytes 4], [.bytes 3, .bytes 1], [.bytes 1]] .new
      (sendAll encodeBool [true, false]) =
        some ([.dropped, .msg true, .msg false, .eof], .new, []) := by decide
  obtain ⟨-, -, -, hall, hnext⟩ :=
    completed_sendAll (by decide) (by decide) (by decide) hcalls
  exact ⟨hcalls, hall rfl rfl, hnext⟩

end RustCourse.Lesson10
