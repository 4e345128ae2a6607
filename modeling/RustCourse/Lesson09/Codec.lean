import Mathlib.Order.Nat
import RustCourse.Lesson09.Reader
import RustCourse.Lib.Codec

/-!
# The lesson 09 codec

`lessons/09/exercises/src/writer.rs`, and what its bytes become in the `MessageReader`.

What a stream will deliver is a list of bytes, and how it delivers them is up to the
environment: every read that does not fail with `WouldBlock` hands out at least one byte
and as many as it likes of those that fit.  `answers_of_recv` says what a `recv` can
return, and this only depends on the bytes loaded and the bytes not read yet, one after
the other: where one ends and the other begins shows in nothing but the sizes at which a
line is too large.  So for lines that are short enough it is an invariant of successive
calls that loaded and unread bytes are the encoding of the messages not returned yet.
-/

namespace RustCourse.Lesson09

open Codec Lines

variable {T σ ℓ : Type*}

/-! ## The writer -/

/-- `MessageWriter::send`; `encode` is `serde_json::to_vec`. -/
def MessageWriter.send (encode : T → List UInt8) (sink : List UInt8) (message : T) :
    Option (List UInt8) :=
  let serialized := encode message
  -- `assert!(!serialized.contains(&b'\n'))`
  if newline ∈ serialized then none else some (sink ++ serialized ++ [newline])

/-- The bytes in the sink after one `send` for each message. -/
def sendAll (encode : T → List UInt8) (messages : List T) : Option (List UInt8) :=
  messages.foldlM (MessageWriter.send encode) []

private theorem foldlM_send {encode : T → List UInt8} (hline : ∀ msg, newline ∉ encode msg)
    (messages : List T) (sink : List UInt8) :
    messages.foldlM (MessageWriter.send encode) sink =
      some (sink ++ unlines newline (messages.map encode)) := by
  induction messages generalizing sink with
  | nil => simp
  | cons msg rest ih => simp [MessageWriter.send, hline, ih]

theorem sendAll_eq {encode : T → List UInt8} (hline : ∀ msg, newline ∉ encode msg)
    (messages : List T) :
    sendAll encode messages = some (unlines newline (messages.map encode)) :=
  foldlM_send hline messages []

/-! ## The stream -/

/-- A stream, by the bytes that it has not delivered yet; it remembers how long the
buffers were that it was given. -/
structure Stream where
  unread : List UInt8
  offered : List ℕ
  deriving DecidableEq, Repr

/-- What the environment decides about one `read`. -/
inductive Delivery
  /-- this many bytes are delivered, or as many as come closest to it: at least one and no
  more than fit and are left -/
  | bytes (n : ℕ)
  | wouldBlock
  deriving DecidableEq, Repr

namespace Stream

/-- The buffer had so much room when the stream was read. -/
def offer (stream : Stream) (free : ℕ) : Stream :=
  { stream with offered := stream.offered ++ [free] }

/-- How many bytes are delivered. -/
def amount (stream : Stream) (free n : ℕ) : ℕ :=
  max 1 (min n (min free stream.unread.length))

private theorem amount_pos (stream : Stream) (free n : ℕ) : 0 < stream.amount free n := by
  unfold amount
  omega

private theorem amount_le {stream : Stream} {free : ℕ} (hroom : 0 < free)
    (hleft : 0 < stream.unread.length) (n : ℕ) :
    stream.amount free n ≤ free ∧ stream.amount free n ≤ stream.unread.length := by
  unfold amount
  omega

/-- `stream.read(buf)` for a `buf` of length `free`. -/
def read (stream : Stream) (free : ℕ) : Delivery → Option (ReadOutcome free × Stream)
  | .wouldBlock => some (.wouldBlock, stream.offer free)
  | .bytes n =>
      if h : 0 < free ∧ 0 < stream.unread.length then
        let k := stream.amount free n
        have hk := amount_le h.1 h.2 n
        some (.bytes (stream.unread.take k)
            (by rw [List.length_take, Nat.min_eq_left hk.2]; exact amount_pos stream free n)
            (by rw [List.length_take, Nat.min_eq_left hk.2]; exact hk.1),
          { stream.offer free with unread := stream.unread.drop k })
      -- `Ok(0)` is also the answer to a `read` into an empty buffer
      else some (.eof, stream.offer free)

/-- **What a read can do.** -/
inductive Reads (stream : Stream) (free : ℕ) : Delivery → ReadOutcome free → Stream → Prop
  | wouldBlock : Reads stream free .wouldBlock .wouldBlock (stream.offer free)
  | bytes {n bs unread hpos hfit} : stream.unread = bs ++ unread →
      Reads stream free (.bytes n) (.bytes bs hpos hfit) { stream.offer free with unread }
  | eof {n} : free = 0 ∨ stream.unread = [] → Reads stream free (.bytes n) .eof (stream.offer free)

theorem reads_of_read {stream stream' : Stream} {free : ℕ} {choice : Delivery}
    {outcome : ReadOutcome free} (h : stream.read free choice = some (outcome, stream')) :
    stream.Reads free choice outcome stream' := by
  cases choice with
  | wouldBlock =>
      cases h
      exact .wouldBlock
  | bytes n =>
      simp only [read] at h
      split at h <;> cases h
      · exact .bytes (List.take_append_drop _ _).symm
      · next hnothing =>
          refine .eof ?_
          rw [← List.length_eq_zero_iff]
          omega

/-- A read always returns. -/
theorem exists_read (stream : Stream) (free : ℕ) (choice : Delivery) :
    ∃ outcome stream', stream.read free choice = some (outcome, stream') := by
  cases choice with
  | wouldBlock => exact ⟨_, _, rfl⟩
  | bytes n =>
      simp only [read]
      split
      · exact ⟨_, _, rfl⟩
      · exact ⟨_, _, rfl⟩

/-- No read was given an empty buffer. -/
def Roomy (stream : Stream) : Prop :=
  ∀ free ∈ stream.offered, 0 < free

theorem Roomy.offer {stream : Stream} {free : ℕ} (h : stream.Roomy) (hfree : 0 < free) :
    (stream.offer free).Roomy := by
  intro other hother
  rcases List.mem_append.mp hother with hother | hother
  · exact h other hother
  · rw [List.mem_singleton.mp hother]
    exact hfree

end Stream

/-! ## What a `recv` returns -/

namespace MessageReader

variable {decode : List UInt8 → Option T}

/-- **What a `recv` can return** when `text` is what is loaded and then what is not read
yet, and what of it is left. -/
inductive Answers (decode : List UInt8 → Option T) (text : List UInt8) :
    Received T → List UInt8 → Prop
  | msg {msg} : newline ∈ text → (firstLine newline text).length < bufferSize →
      decode (firstLine newline text) = some msg →
      Answers decode text (.msg msg) (afterLine newline text)
  | malformed : newline ∈ text → (firstLine newline text).length < bufferSize →
      decode (firstLine newline text) = none → Answers decode text .malformed text
  | tooLarge : maxMessageSize ≤ (firstLine newline text).length →
      Answers decode text .tooLarge text
  | wouldBlock : Answers decode text .wouldBlock text
  | eof : newline ∉ text → text.length < maxMessageSize → Answers decode text .eof text

/-- What is loaded decides, if a `recv` returns without another read. -/
theorem answers_of_inspect {r r' : MessageReader} {got : Received T} {unread : List UInt8}
    (h : r.inspect decode = some (got, r')) :
    Answers decode (r.loaded ++ unread) got (r'.loaded ++ unread) := by
  have hbuffered : ∀ {line}, newline ∈ r.loaded → decode r.line = line →
      newline ∈ r.loaded ++ unread ∧
        (firstLine newline (r.loaded ++ unread)).length < bufferSize ∧
        decode (firstLine newline (r.loaded ++ unread)) = line := by
    intro line hline hdecode
    rw [firstLine_append hline]
    exact ⟨List.mem_append_left _ hline, (length_firstLine_lt hline).trans_le r.fits, hdecode⟩
  cases inspected h with
  | msg hline hdecode =>
      obtain ⟨hmem, hfits, hdecode⟩ := hbuffered hline hdecode
      rw [loaded_shift, ← afterLine_append hline]
      exact .msg hmem hfits hdecode
  | malformed hline hdecode =>
      obtain ⟨hmem, hfits, hdecode⟩ := hbuffered hline hdecode
      exact .malformed hmem hfits hdecode
  | tooLarge hline hlong => exact .tooLarge (hlong.trans (length_le_firstLine hline))

/-- **The answer of a `recv`** is decided by the bytes, and every read it makes has room. -/
theorem answers_of_recv {reads : List Delivery} {r r' : MessageReader} {stream stream' : Stream}
    {got : Received T} (h : recv decode Stream.read reads r stream = some (got, r', stream')) :
    Answers decode (r.loaded ++ stream.unread) got (r'.loaded ++ stream'.unread) ∧
      (stream.Roomy → stream'.Roomy) := by
  -- a read only moves bytes from the stream into the buffer
  obtain ⟨r₀, stream₀, ⟨htext, hroomy₀⟩, hends⟩ := recv_rule
    (P := fun r₀ stream₀ =>
      r₀.loaded ++ stream₀.unread = r.loaded ++ stream.unread ∧ (stream.Roomy → stream₀.Roomy))
    h ⟨rfl, id⟩ (by
      rintro r₁ stream₁ choice bs hpos hfit stream₂ ⟨htext, hroomy₁⟩ hread
      cases Stream.reads_of_read hread with
      | bytes hunread =>
          have hfree : 0 < r₁.free := hpos.trans_le hfit
          refine ⟨?_, fun hroomy => (hroomy₁ hroomy).offer hfree⟩
          rw [loaded_load, List.append_assoc, ← hunread, htext])
  rw [← htext]
  cases hends with
  | inspected hinspect => exact ⟨answers_of_inspect hinspect, hroomy₀⟩
  | eof hinspect hread =>
      have hfree := free_pos_of_inspect hinspect
      cases Stream.reads_of_read hread with
      | eof hnothing =>
          -- there was room, so the end was reached because nothing is left
          have hunread : stream₀.unread = [] := hnothing.resolve_left hfree.ne'
          refine ⟨?_, fun hroomy => (hroomy₀ hroomy).offer hfree⟩
          show Answers decode (r'.loaded ++ stream₀.unread) .eof (r'.loaded ++ stream₀.unread)
          rw [hunread, List.append_nil]
          exact .eof (newline_notMem_of_inspect hinspect) (length_lt_of_inspect hinspect)
  | wouldBlock hinspect hread =>
      have hfree := free_pos_of_inspect hinspect
      cases Stream.reads_of_read hread with
      | wouldBlock => exact ⟨.wouldBlock, fun hroomy => (hroomy₀ hroomy).offer hfree⟩
  | err _ hread => cases Stream.reads_of_read hread

/-- **Every `recv` returns**, whatever the stream does: each read but the last takes bytes
from it. -/
theorem exists_recv (decode : List UInt8 → Option T) (behaviour : ℕ → Delivery) (r : MessageReader)
    (stream : Stream) :
    ∃ n, (recv decode Stream.read ((List.range n).map behaviour) r stream).isSome := by
  induction hlength : stream.unread.length using Nat.strongRecOn
    generalizing behaviour r stream with
  | _ length ih =>
      cases hinspect : r.inspect decode with
      | some result => exact ⟨0, by simp [recv, hinspect]⟩
      | none =>
          obtain ⟨outcome, stream', hread⟩ := stream.exists_read r.free (behaviour 0)
          generalize hchoice : behaviour 0 = choice at hread
          cases Stream.reads_of_read hread with
          | wouldBlock => exact ⟨1, by simp [recv, hinspect, hchoice, hread]⟩
          | eof hnothing => exact ⟨1, by simp [recv, hinspect, hchoice, hread]⟩
          | @bytes n bs unread hpos hfit hunread =>
              have hshorter : unread.length < length := by
                rw [← hlength, hunread, List.length_append]
                omega
              obtain ⟨m, hm⟩ := ih unread.length hshorter (fun i => behaviour (i + 1))
                (r.load bs hfit) { stream.offer r.free with unread } rfl
              refine ⟨m + 1, ?_⟩
              rw [List.range_succ_eq_map, List.map_cons, List.map_map, recv]
              simp only [hinspect, hchoice, hread]
              exact hm

/-! ## Which calls are blocked -/

private theorem not_wouldBlock_of_inspect {r r' : MessageReader} {got : Received T}
    (h : r.inspect decode = some (got, r')) : got ≠ .wouldBlock := by
  cases inspected h <;> simp

/-- **A `recv` fails with `WouldBlock`** if its last read does, and only then. -/
theorem wouldBlock_iff_of_recv {reads : List Delivery} {r r' : MessageReader}
    {stream stream' : Stream} {got : Received T}
    (h : recv decode Stream.read reads r stream = some (got, r', stream')) :
    got = .wouldBlock ↔ reads.getLast? = some .wouldBlock := by
  induction reads generalizing r stream with
  | nil =>
      obtain ⟨result, hresult, heq⟩ := Option.map_eq_some_iff.mp h
      cases heq
      simpa using not_wouldBlock_of_inspect hresult
  | cons choice rest ih =>
      cases hinspect : r.inspect decode with
      | some result => simp [recv, hinspect] at h
      | none =>
          obtain ⟨outcome, after, hread⟩ := stream.exists_read r.free choice
          cases Stream.reads_of_read hread with
          | wouldBlock | eof hnothing =>
              simp only [recv, hinspect, hread] at h
              split at h <;> cases h
              next hlast => simp [List.isEmpty_iff.mp hlast]
          | bytes =>
              simp only [recv, hinspect, hread] at h
              rw [ih h, List.getLast?_cons]
              cases rest.getLast? <;> simp

/-! ## Successive calls -/

/-- The results of successive calls of `recv`, of which each makes its own reads. -/
def recvAll (decode : List UInt8 → Option T)
    (read : σ → (free : ℕ) → ℓ → Option (ReadOutcome free × σ)) :
    List (List ℓ) → MessageReader → σ → Option (List (Received T) × MessageReader × σ)
  | [], r, stream => some ([], r, stream)
  | reads :: calls, r, stream =>
      (recv decode read reads r stream).bind fun (got, r', stream') =>
        (recvAll decode read calls r' stream').map fun (gots, last) => (got :: gots, last)

/-- A fact about every single `recv` is one about the successive calls. -/
theorem calls_of_recvAll {read : σ → (free : ℕ) → ℓ → Option (ReadOutcome free × σ)} {ι : Type*}
    (input : MessageReader → σ → ι) {answer : ι → Received T → ι → Prop}
    (hrecv : ∀ reads r stream got r' stream',
      recv decode read reads r stream = some (got, r', stream') →
      answer (input r stream) got (input r' stream'))
    {calls : List (List ℓ)} {r r' : MessageReader} {stream stream' : σ} {gots : List (Received T)}
    (h : recvAll decode read calls r stream = some (gots, r', stream')) :
    Calls answer (input r stream) gots (input r' stream') := by
  induction calls generalizing r stream gots with
  | nil =>
      cases h
      exact .nil _
  | cons reads calls ih =>
      obtain ⟨⟨got, r₁, stream₁⟩, hfirst, hcalls⟩ := Option.bind_eq_some_iff.mp h
      obtain ⟨⟨rest, last⟩, hrest, heq⟩ := Option.map_eq_some_iff.mp hcalls
      cases heq
      exact .cons (hrecv _ _ _ _ _ _ hfirst) (ih hrest)

private theorem wouldBlock_iff_of_recvAll {calls : List (List Delivery)} {r r' : MessageReader}
    {stream stream' : Stream} {gots : List (Received T)}
    (h : recvAll decode Stream.read calls r stream = some (gots, r', stream')) :
    List.Forall₂ (fun reads got => got = .wouldBlock ↔ reads.getLast? = some .wouldBlock)
      calls gots := by
  induction calls generalizing r stream gots with
  | nil =>
      cases h
      exact .nil
  | cons reads calls ih =>
      obtain ⟨⟨got, r₁, stream₁⟩, hfirst, hcalls⟩ := Option.bind_eq_some_iff.mp h
      obtain ⟨⟨rest, last⟩, hrest, heq⟩ := Option.map_eq_some_iff.mp hcalls
      cases heq
      exact .cons (wouldBlock_iff_of_recv hfirst) (ih hrest)

private theorem roomy_of_recvAll {calls : List (List Delivery)} {r r' : MessageReader}
    {stream stream' : Stream} {gots : List (Received T)}
    (h : recvAll decode Stream.read calls r stream = some (gots, r', stream'))
    (hroomy : stream.Roomy) : stream'.Roomy := by
  induction calls generalizing r stream gots with
  | nil =>
      cases h
      exact hroomy
  | cons reads calls ih =>
      obtain ⟨⟨got, r₁, stream₁⟩, hfirst, hcalls⟩ := Option.bind_eq_some_iff.mp h
      obtain ⟨⟨rest, last⟩, hrest, heq⟩ := Option.map_eq_some_iff.mp hcalls
      cases heq
      exact ih hrest ((answers_of_recv hfirst).2 hroomy)

end MessageReader

/-- The error of kind `WouldBlock`. -/
def Received.blocked : Received T → Bool
  | .wouldBlock => true
  | _ => false

open MessageReader

section RoundTrip

variable {encode : T → List UInt8} {decode : List UInt8 → Option T}

/-- A `recv` that has the encoding of `msgs` before it is blocked, or returns the first of
them, or finds that there is none. -/
theorem decodes_of_answers {msgs : List T} {got : Received T} {rest : List UInt8}
    (hinverts : ∀ msg, decode (encode msg) = some msg) (hline : ∀ msg, newline ∉ encode msg)
    (hshort : ∀ msg ∈ msgs, (encode msg).length ≤ 255)
    (h : Answers decode (unlines newline (msgs.map encode)) got rest) :
    Decodes (fun msgs => unlines newline (msgs.map encode)) Received.msg .eof Received.blocked
      msgs got rest := by
  cases msgs with
  | nil =>
      cases h with
      | wouldBlock => exact .idles rfl
      | eof => exact .done
      | msg hmem | malformed hmem => exact absurd hmem (List.not_mem_nil)
      | tooLarge hlong => exact absurd hlong (by simp [firstLine, maxMessageSize])
  | cons msg more =>
      -- the first line is the encoding of the first message
      have hfirst :
          firstLine newline (unlines newline ((msg :: more).map encode)) = encode msg := by
        rw [List.map_cons, unlines_cons]
        exact firstLine_line (hline msg)
      cases h with
      | wouldBlock => exact .idles rfl
      | msg _ _ hdecode =>
          rw [hfirst, hinverts, Option.some.injEq] at hdecode
          rw [List.map_cons, unlines_cons, afterLine_line (hline msg), ← hdecode]
          exact .item
      | malformed _ _ hdecode =>
          rw [hfirst, hinverts] at hdecode
          cases hdecode
      | tooLarge hlong =>
          have hlength : (encode msg).length ≤ 255 := hshort msg (by simp)
          rw [hfirst, maxMessageSize] at hlong
          omega
      | eof hmem => exact absurd (by simp) hmem

/-- **The codec round trip.**  Whatever the stream does, successive calls of `recv` return
the messages that were sent, in order and each once, and then `None`, if the calls that
were blocked are left out; none fails with "Too large message", and no read is given an
empty buffer.

A call is blocked only where its last read is, so it is the stream that decides which calls
count.  Once every byte has been delivered and taken, all messages have been returned, and
behind them nothing but `None`.  In every state that calls lead to, the next call returns,
and if none of its reads is blocked it returns the first message that has not been returned
yet, or `None` if all have. -/
theorem recvAll_sendAll {msgs : List T} (hinverts : ∀ msg, decode (encode msg) = some msg)
    (hline : ∀ msg, newline ∉ encode msg) (hshort : ∀ msg ∈ msgs, (encode msg).length ≤ 255) :
    ∃ bytes, sendAll encode msgs = some bytes ∧
      ∀ calls gots r stream,
        recvAll decode Stream.read calls .new ⟨bytes, []⟩ = some (gots, r, stream) →
        gots.filter (fun got => !got.blocked) <+:
            msgs.map Received.msg ++ List.replicate gots.length Received.eof ∧
          .tooLarge ∉ gots ∧
          List.Forall₂ (fun reads got => got = .wouldBlock ↔ reads.getLast? = some .wouldBlock)
            calls gots ∧
          (r.loaded = [] → stream.unread = [] → ∃ n, gots.filter (fun got => !got.blocked) =
            msgs.map Received.msg ++ List.replicate n Received.eof) ∧
          (∀ free ∈ stream.offered, 0 < free) ∧
          ∀ behaviour : ℕ → Delivery, ∃ n next r' stream',
            recv decode Stream.read ((List.range n).map behaviour) r stream =
              some (next, r', stream') ∧
            ((∀ i, behaviour i ≠ .wouldBlock) → next = ((msgs.map Received.msg)[(gots.filter
              fun got => !got.blocked).length]?).getD .eof) := by
  refine ⟨_, sendAll_eq hline msgs, ?_⟩
  intro calls gots r stream h
  have hcalls : Calls (Answers decode) (unlines newline (msgs.map encode)) gots
      (r.loaded ++ stream.unread) :=
    calls_of_recvAll (fun r stream => r.loaded ++ stream.unread)
      (fun _ _ _ _ _ _ hrecv => (answers_of_recv hrecv).1) h
  have hdecodes : ∀ msgs got rest, (∀ msg ∈ msgs, (encode msg).length ≤ 255) →
      Answers decode (unlines newline (msgs.map encode)) got rest →
      Decodes (fun msgs => unlines newline (msgs.map encode)) Received.msg .eof Received.blocked
        msgs got rest :=
    fun _ _ _ hshort hanswer => decodes_of_answers hinverts hline hshort hanswer
  have hinitial := hcalls.filter_prefix (fun msgs => unlines newline (msgs.map encode))
    Received.msg .eof Received.blocked hshort (fun _ => rfl) rfl hdecodes
  refine ⟨hinitial, ?_, wouldBlock_iff_of_recvAll h, fun hloaded hunread => ?_,
    roomy_of_recvAll h (by simp [Stream.Roomy]), fun behaviour => ?_⟩
  · intro hlarge
    have hmem := hinitial.subset (List.mem_filter.mpr ⟨hlarge, rfl⟩)
    simp at hmem
  · have hleft := hcalls.rest_eq (fun msgs => unlines newline (msgs.map encode)) Received.msg
      .eof Received.blocked hshort (fun _ => rfl) hdecodes
    rw [hloaded, hunread, List.nil_append, eq_comm, unlines_eq_nil_iff, List.map_eq_nil_iff,
      List.drop_eq_nil_iff] at hleft
    -- the results reach beyond the messages
    exact exists_eq_append_replicate hinitial (by simpa using hleft)
  · obtain ⟨n, hsome⟩ := exists_recv decode behaviour r stream
    obtain ⟨⟨next, r', stream'⟩, hrecv⟩ := Option.isSome_iff_exists.mp hsome
    refine ⟨n, next, r', stream', hrecv, fun hready => ?_⟩
    have hreturned : next ≠ .wouldBlock := by
      intro hblocked
      have hlast := List.mem_of_getLast? ((wouldBlock_iff_of_recv hrecv).mp hblocked)
      obtain ⟨i, -, hi⟩ := List.mem_map.mp hlast
      exact hready i hi
    exact hcalls.next_eq (fun msgs => unlines newline (msgs.map encode)) Received.msg .eof
      Received.blocked hshort (fun _ => rfl) hdecodes (answers_of_recv hrecv).1
      (by cases next <;> first | rfl | exact absurd rfl hreturned)

end RoundTrip

/-- `serde_json::to_vec` on a boolean. -/
def encodeBool : Bool → List UInt8
  | true => [116, 114, 117, 101]
  | false => [102, 97, 108, 115, 101]

/-- `serde_json::from_slice` for a boolean, on what `to_vec` writes. -/
def decodeBool (line : List UInt8) : Option Bool :=
  if line = encodeBool true then some true
  else if line = encodeBool false then some false
  else none

/-- The reader is blocked in the middle of a message, and then gets the end of it together
with the start of the next one.  Everything has been delivered after that, and a further call
can only return `None`. -/
theorem recvAll_sendAll_bools :
    ∃ bytes, sendAll encodeBool [true, false] = some bytes ∧ ∃ r stream,
      recvAll decodeBool Stream.read
          [[.bytes 3, .wouldBlock], [.bytes 4], [.bytes 3, .bytes 1], [.bytes 1]] .new
          ⟨bytes, []⟩ = some ([.wouldBlock, .msg true, .msg false, .eof], r, stream) ∧
      (∃ n, [Received.msg true, .msg false, .eof] =
        [true, false].map Received.msg ++ List.replicate n Received.eof) ∧
      (∀ free ∈ stream.offered, 0 < free) ∧
      ∀ behaviour : ℕ → Delivery, ∃ n next r' stream',
        recv decodeBool Stream.read ((List.range n).map behaviour) r stream =
          some (next, r', stream') ∧
        ((∀ i, behaviour i ≠ .wouldBlock) → next = .eof) := by
  obtain ⟨bytes, hbytes, hround⟩ :=
    @recvAll_sendAll Bool encodeBool decodeBool [true, false] (by decide) (by decide) (by decide)
  cases hbytes
  have hcalls : recvAll decodeBool Stream.read
      [[.bytes 3, .wouldBlock], [.bytes 4], [.bytes 3, .bytes 1], [.bytes 1]] .new
      ⟨unlines newline [encodeBool true, encodeBool false], []⟩ =
        some ([.wouldBlock, .msg true, .msg false, .eof], .new,
          ⟨[], [1024, 1021, 1021, 1022, 1019, 1024]⟩) := by
    decide
  obtain ⟨-, -, -, hall, hroomy, hnext⟩ := hround _ _ _ _ hcalls
  exact ⟨_, rfl, _, _, hcalls, hall rfl rfl, hroomy, hnext⟩

end RustCourse.Lesson09
