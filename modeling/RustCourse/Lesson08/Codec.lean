import RustCourse.Lib.LittleEndian

/-!
# The lesson 08 codec

`lessons/08/exercises/src/reader.rs` and `writer.rs`.  A message goes over the wire as a
frame: the length of its encoding as a `u32`, and the encoding.  `read_exact` and
`write_all` loop until all bytes are there, so how the stream cuts them does not matter,
and a reader is a function of the bytes that are left and of how they end.

`readAll_take` is about a stream that was cut anywhere: the reads return the messages whose
frames are complete, up to the first one over the limit, and the read behind them tells a
cut between frames or in a length from one in a message.

## Strategy

What a `read` does on a stream that begins with a frame is one lemma (`read_frame`), and there
is one for every way in which a stream can be too short or a length too large.  `readAll_take`
is an induction over the messages: either the cut is behind the first frame, and the rest of
the stream is a shorter case, or it is inside of it.
-/

namespace RustCourse.Lesson08

open LittleEndian

/-! ## The limit -/

/-- `MAX_MESSAGE_SIZE` -/
def maxMessageSize : UInt32 := 256

variable {T : Type*}

/-! ## The writer -/

/-- What `MessageWriter::write` puts on the wire; `encode` is `serde_json::to_vec`. -/
def frame (encode : T → List UInt8) (message : T) : List UInt8 :=
  let serialized := encode message
  -- `as u32` keeps the lowest 32 bits
  let size := UInt32.ofNat serialized.length
  toLeBytes size ++ serialized

/-- `MessageWriter::write` -/
def MessageWriter.write (encode : T → List UInt8) (sink : List UInt8) (message : T) : List UInt8 :=
  sink ++ frame encode message

/-- The bytes written by one `write` for each message. -/
def MessageWriter.writeAll (encode : T → List UInt8) (msgs : List T) : List UInt8 :=
  msgs.foldl (MessageWriter.write encode) []

/-! ## The reader -/

/-- The kinds of errors that the readers tell apart. -/
inductive ErrorKind
  | unexpectedEof
  /-- any other error of the stream -/
  | other
  deriving DecidableEq, Repr

/-- What a stream has not handed out, and whether it then fails or ends. -/
structure Stream where
  unread : List UInt8
  fails : Bool
  deriving DecidableEq, Repr

/-- `stream.read_exact(&mut buf)` for a `buf` of the given length. -/
def readExact (length : ℕ) (stream : Stream) : Except ErrorKind (List UInt8) × Stream :=
  if length ≤ stream.unread.length then
    (.ok (stream.unread.take length), { stream with unread := stream.unread.drop length })
  else
    (.error (if stream.fails then .other else .unexpectedEof), { stream with unread := [] })

/-- The errors `read` returns. -/
inductive ReadError
  | io (kind : ErrorKind)
  /-- "Message too large ({size} bytes)" -/
  | tooLarge (size : UInt32)
  /-- "Cannot read message: .." -/
  | cannotRead (kind : ErrorKind)
  /-- "Cannot deserialize message: .." -/
  | cannotDeserialize
  deriving DecidableEq, Repr

/-- What `read` returns. -/
abbrev ReadResult (T : Type*) := Option (Except ReadError T)

/-- `MessageReader::read`; `decode` is `serde_json::from_slice`. -/
def MessageReader.read (decode : List UInt8 → Option T) (stream : Stream) :
    ReadResult T × Stream :=
  match readExact 4 stream with
  | (.error .unexpectedEof, stream) => (none, stream)
  | (.error kind, stream) => (some (.error (.io kind)), stream)
  | (.ok message, stream) =>
      let size := fromLeBytes message
      if maxMessageSize < size then (some (.error (.tooLarge size)), stream)
      else
        match readExact size.toNat stream with
        | (.error kind, stream) => (some (.error (.cannotRead kind)), stream)
        | (.ok buffer, stream) =>
            match decode buffer with
            | some msg => (some (.ok msg), stream)
            | none => (some (.error .cannotDeserialize), stream)

/-- What at most `calls` successive reads return, up to the first `None` or `Err`. -/
def MessageReader.readAll (decode : List UInt8 → Option T) : ℕ → Stream → List (ReadResult T)
  | 0, _ => []
  | calls + 1, stream =>
      match read decode stream with
      | (some (.ok msg), stream) => some (.ok msg) :: readAll decode calls stream
      | (got, _) => [got]

/-! ## One frame -/

@[simp] theorem length_frame (encode : T → List UInt8) (message : T) :
    (frame encode message).length = 4 + (encode message).length := by
  simp [frame]

private theorem foldl_write (encode : T → List UInt8) (msgs : List T) (sink : List UInt8) :
    msgs.foldl (MessageWriter.write encode) sink = sink ++ msgs.flatMap (frame encode) := by
  induction msgs generalizing sink with
  | nil => simp
  | cons msg rest ih => simp [MessageWriter.write, ih]

theorem writeAll_eq (encode : T → List UInt8) (msgs : List T) :
    MessageWriter.writeAll encode msgs = msgs.flatMap (frame encode) :=
  foldl_write encode msgs []

@[simp] theorem writeAll_cons (encode : T → List UInt8) (msg : T) (msgs : List T) :
    MessageWriter.writeAll encode (msg :: msgs) =
      frame encode msg ++ MessageWriter.writeAll encode msgs := by
  rw [writeAll_eq, writeAll_eq, List.flatMap_cons]

theorem readExact_append (bs rest : List UInt8) (fails : Bool) :
    readExact bs.length ⟨bs ++ rest, fails⟩ = (.ok bs, ⟨rest, fails⟩) := by
  simp [readExact]

theorem readExact_short {length : ℕ} {bs : List UInt8} (h : bs.length < length) :
    readExact length ⟨bs, false⟩ = (.error .unexpectedEof, ⟨[], false⟩) := by
  simp [readExact, Nat.not_le_of_lt h]

section Frames

variable {encode : T → List UInt8} {decode : List UInt8 → Option T} {msg : T}

/-- A stream that ends in a length. -/
theorem read_of_short {bs : List UInt8} (h : bs.length < 4) :
    MessageReader.read decode ⟨bs, false⟩ = (none, ⟨[], false⟩) := by
  rw [MessageReader.read, readExact_short h]

/-- The length of a message is read back. -/
theorem read_size (size : UInt32) (rest : List UInt8) :
    readExact 4 ⟨toLeBytes size ++ rest, false⟩ = (.ok (toLeBytes size), ⟨rest, false⟩) := by
  have h := readExact_append (toLeBytes size) rest false
  rwa [length_toLeBytes] at h

/-- A message over the limit is not read any further. -/
theorem read_tooLarge {size : UInt32} (hlarge : maxMessageSize < size) (rest : List UInt8) :
    MessageReader.read decode ⟨toLeBytes size ++ rest, false⟩ =
      (some (.error (.tooLarge size)), ⟨rest, false⟩) := by
  simp only [MessageReader.read, read_size, fromLeBytes_toLeBytes, hlarge, if_true]

/-- A stream that ends in a message. -/
theorem read_cut {size : UInt32} (hfits : ¬ maxMessageSize < size) {bs : List UInt8}
    (hcut : bs.length < size.toNat) :
    MessageReader.read decode ⟨toLeBytes size ++ bs, false⟩ =
      (some (.error (.cannotRead .unexpectedEof)), ⟨[], false⟩) := by
  simp only [MessageReader.read, read_size, fromLeBytes_toLeBytes, hfits, if_false,
    readExact_short hcut]

/-- **A complete frame is read back.** -/
theorem read_frame (hinverts : decode (encode msg) = some msg)
    (hfits : (encode msg).length ≤ maxMessageSize.toNat) (rest : List UInt8) :
    MessageReader.read decode ⟨frame encode msg ++ rest, false⟩ =
      (some (.ok msg), ⟨rest, false⟩) := by
  have hsize : (UInt32.ofNat (encode msg).length).toNat = (encode msg).length :=
    UInt32.toNat_ofNat_of_lt' (lt_of_le_of_lt hfits (by decide))
  have hlimit : ¬ maxMessageSize < UInt32.ofNat (encode msg).length := by
    rw [UInt32.lt_iff_toNat_lt, hsize]
    omega
  have hbody := readExact_append (encode msg) rest false
  simp only [MessageReader.read, frame, List.append_assoc, read_size, fromLeBytes_toLeBytes, hlimit,
    if_false, hsize, hbody, hinverts]

end Frames

/-! ## Streams that were cut -/

section Cut

variable {encode : T → List UInt8} {decode : List UInt8 → Option T} {msg : T} {msgs : List T}
  {cut k : ℕ}

/-- The frames of the first `k` messages are complete in the first `cut` bytes, and none of
these messages is over the limit. -/
structure Readable (encode : T → List UInt8) (msgs : List T) (cut k : ℕ) : Prop where
  le : k ≤ msgs.length
  fits : ∀ msg ∈ msgs.take k, (encode msg).length ≤ maxMessageSize.toNat
  complete : (MessageWriter.writeAll encode (msgs.take k)).length ≤ cut

/-- What the read behind the first `k` messages returns. -/
def lastRead (encode : T → List UInt8) (msgs : List T) (cut k : ℕ) : ReadResult T :=
  match msgs[k]? with
  | none => none
  | some msg =>
      if cut < (MessageWriter.writeAll encode (msgs.take k)).length + 4 then none
      else if maxMessageSize.toNat < (encode msg).length then
        some (.error (.tooLarge (UInt32.ofNat (encode msg).length)))
      else some (.error (.cannotRead .unexpectedEof))

@[simp] theorem writeAll_nil : MessageWriter.writeAll encode [] = [] := rfl

private theorem readable_zero : Readable encode msgs cut 0 :=
  ⟨Nat.zero_le _, by simp, by simp⟩

theorem readable_cons :
    Readable encode (msg :: msgs) cut (k + 1) ↔
      (encode msg).length ≤ maxMessageSize.toNat ∧ (frame encode msg).length ≤ cut ∧
        Readable encode msgs (cut - (frame encode msg).length) k := by
  constructor
  · rintro ⟨hle, hfits, hcomplete⟩
    rw [List.take_succ_cons, writeAll_cons, List.length_append] at hcomplete
    refine ⟨hfits msg (by simp), by omega, by simpa using hle, fun other hother => ?_, by omega⟩
    exact hfits other (by simp [hother])
  · rintro ⟨hfits, hroom, hle, hrest, hcomplete⟩
    refine ⟨by simpa using hle, ?_, ?_⟩
    · simpa using ⟨hfits, hrest⟩
    · rw [List.take_succ_cons, writeAll_cons, List.length_append]
      omega

theorem lastRead_cons (hroom : (frame encode msg).length ≤ cut) :
    lastRead encode (msg :: msgs) cut (k + 1) =
      lastRead encode msgs (cut - (frame encode msg).length) k := by
  have hcut : ∀ n : ℕ, cut < (frame encode msg).length + n + 4 ↔
      cut - (frame encode msg).length < n + 4 := by
    intro n
    omega
  simp only [lastRead, List.getElem?_cons_succ, List.take_succ_cons, writeAll_cons,
    List.length_append, hcut]

/-- The first frame is not complete, or over the limit. -/
theorem readAll_unreadable (hsize : (encode msg).length < 2 ^ 32) {calls : ℕ}
    (hfirst : ¬ ((encode msg).length ≤ maxMessageSize.toNat ∧ (frame encode msg).length ≤ cut))
    (rest : List UInt8) :
    MessageReader.readAll decode (calls + 1) ⟨(frame encode msg ++ rest).take cut, false⟩ =
      [lastRead encode (msg :: msgs) cut 0] := by
  have hsize' : (UInt32.ofNat (encode msg).length).toNat = (encode msg).length :=
    UInt32.toNat_ofNat_of_lt' hsize
  have hlast : lastRead encode (msg :: msgs) cut 0 =
      if cut < 4 then none
      else if maxMessageSize.toNat < (encode msg).length then
        some (.error (.tooLarge (UInt32.ofNat (encode msg).length)))
      else some (.error (.cannotRead .unexpectedEof)) := by
    simp [lastRead]
  rw [hlast, MessageReader.readAll]
  by_cases hheader : cut < 4
  · rw [read_of_short (by rw [List.length_take]; omega), if_pos hheader]
  · -- the length is there
    have hbytes : (frame encode msg ++ rest).take cut =
        toLeBytes (UInt32.ofNat (encode msg).length) ++ (encode msg ++ rest).take (cut - 4) := by
      rw [frame, List.append_assoc, List.take_append, length_toLeBytes,
        List.take_of_length_le (by rw [length_toLeBytes]; omega)]
    rw [hbytes, if_neg hheader]
    by_cases hlarge : maxMessageSize.toNat < (encode msg).length
    · rw [read_tooLarge (by rwa [UInt32.lt_iff_toNat_lt, hsize']), if_pos hlarge]
    · have hcut : cut - 4 < (encode msg).length := by
        rw [length_frame] at hfirst
        omega
      have hshort : ((encode msg ++ rest).take (cut - 4)).length <
          (UInt32.ofNat (encode msg).length).toNat := by
        rw [hsize', List.length_take]
        omega
      rw [read_cut (by rwa [UInt32.lt_iff_toNat_lt, hsize']) hshort, if_neg hlarge]

private theorem exists_readAll (hinverts : ∀ msg, decode (encode msg) = some msg)
    (hsize : ∀ msg ∈ msgs, (encode msg).length < 2 ^ 32) (cut : ℕ) {calls : ℕ}
    (hcalls : msgs.length < calls) :
    ∃ k, Readable encode msgs cut k ∧ (∀ k', Readable encode msgs cut k' → k' ≤ k) ∧
      MessageReader.readAll decode calls ⟨(MessageWriter.writeAll encode msgs).take cut, false⟩ =
        (msgs.take k).map (fun msg => some (.ok msg)) ++ [lastRead encode msgs cut k] := by
  -- by induction on the messages: is the first frame there, and short enough?
  induction msgs generalizing cut calls with
  | nil =>
      obtain ⟨calls, rfl⟩ := Nat.exists_eq_succ_of_ne_zero (Nat.ne_of_gt hcalls)
      refine ⟨0, readable_zero, fun k' hk' => hk'.le, ?_⟩
      rw [writeAll_nil, List.take_nil, MessageReader.readAll, read_of_short (by simp)]
      rfl
  | cons msg msgs ih =>
      obtain ⟨calls, rfl⟩ := Nat.exists_eq_succ_of_ne_zero (Nat.ne_of_gt (Nat.zero_lt_of_lt hcalls))
      rw [writeAll_cons]
      by_cases hfirst :
          (encode msg).length ≤ maxMessageSize.toNat ∧ (frame encode msg).length ≤ cut
      · obtain ⟨k, hreadable, hmax, hrest⟩ := ih
          (fun other hother => hsize other (List.mem_cons_of_mem _ hother))
          (cut - (frame encode msg).length) (by simpa using hcalls)
        refine ⟨k + 1, readable_cons.mpr ⟨hfirst.1, hfirst.2, hreadable⟩, ?_, ?_⟩
        · intro k' hk'
          cases k' with
          | zero => omega
          | succ k' => exact Nat.succ_le_succ (hmax k' (readable_cons.mp hk').2.2)
        · rw [List.take_append, List.take_of_length_le hfirst.2, MessageReader.readAll,
            read_frame (hinverts msg) hfirst.1]
          simp only [hrest, lastRead_cons hfirst.2, List.take_succ_cons, List.map_cons,
            List.cons_append]
      · refine ⟨0, readable_zero, ?_, ?_⟩
        · intro k' hk'
          cases k' with
          | zero => exact le_rfl
          | succ k' =>
              have hreadable := readable_cons.mp hk'
              exact absurd ⟨hreadable.1, hreadable.2.1⟩ hfirst
        · rw [readAll_unreadable (hsize msg (by simp)) hfirst]
          rfl

/-- **Reading a stream that was cut.**  The reads return the longest run of messages whose
frames are complete and that are not over the limit, and then what is wrong with the next
one; if nothing was cut off and no message is over the limit they return all messages and
`None`. -/
theorem readAll_take (hinverts : ∀ msg, decode (encode msg) = some msg)
    (hsize : ∀ msg ∈ msgs, (encode msg).length < 2 ^ 32) (cut : ℕ) {calls : ℕ}
    (hcalls : msgs.length < calls) :
    (∃ k, Readable encode msgs cut k ∧ (∀ k', Readable encode msgs cut k' → k' ≤ k) ∧
      MessageReader.readAll decode calls ⟨(MessageWriter.writeAll encode msgs).take cut, false⟩ =
        (msgs.take k).map (fun msg => some (.ok msg)) ++ [lastRead encode msgs cut k]) ∧
    ((MessageWriter.writeAll encode msgs).length ≤ cut →
      (∀ msg ∈ msgs, (encode msg).length ≤ maxMessageSize.toNat) →
      MessageReader.readAll decode calls ⟨(MessageWriter.writeAll encode msgs).take cut, false⟩ =
        msgs.map (fun msg => some (.ok msg)) ++ [none]) := by
  have hreads := exists_readAll hinverts hsize cut hcalls
  refine ⟨hreads, fun hwhole hfits => ?_⟩
  obtain ⟨k, hreadable, hmax, hreads⟩ := hreads
  have hall : Readable encode msgs cut msgs.length := by
    refine ⟨le_rfl, ?_, ?_⟩ <;> rw [List.take_length] <;> assumption
  have hk : k = msgs.length := le_antisymm hreadable.le (hmax _ hall)
  rw [hreads, hk, List.take_length, lastRead, List.getElem?_eq_none le_rfl]

end Cut

/-- `serde_json::to_vec` on the unit value. -/
def encodeUnit (_ : Unit) : List UInt8 := [110, 117, 108, 108]

/-- `serde_json::from_slice` for the unit value, on what `to_vec` writes. -/
def decodeUnit (bytes : List UInt8) : Option Unit :=
  if bytes = encodeUnit () then some () else none

/-- The second of two messages is cut. -/
theorem readAll_take_units :
    MessageReader.readAll decodeUnit 3
          ⟨(MessageWriter.writeAll encodeUnit [(), ()]).take 14, false⟩ =
        [some (.ok ()), some (.error (.cannotRead .unexpectedEof))] ∧
      ∃ k, Readable encodeUnit [(), ()] 14 k := by
  have hsize : ∀ msg ∈ [(), ()], (encodeUnit msg).length < 2 ^ 32 := by decide
  have hcalls : [(), ()].length < 3 := by decide
  have hinverts : ∀ msg, decodeUnit (encodeUnit msg) = some msg := by decide
  have hreads := readAll_take hinverts hsize 14 hcalls
  obtain ⟨⟨k, hreadable, -, -⟩, -⟩ := hreads
  exact ⟨by decide, k, hreadable⟩

end RustCourse.Lesson08
