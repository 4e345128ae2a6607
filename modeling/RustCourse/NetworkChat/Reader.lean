import RustCourse.Lib.Lines

/-!
# The codec of the network chat

`archive/2023/projects/network-chat/02/src/reader.rs` and `writer.rs`.  A message is a line.
`read` keeps the number of its bytes that are loaded in a local `size`, which starts at 0 in
every call, and not in the field of that name; so the bytes that it has moved to the front of
the buffer, to be read by the next call, are overwritten there.

The socket is what its reads return, one after the other; behind the last of them it is at its
end.  `call_of_read` says what a `read` does in terms of the bytes that its own reads hand out.

The size of a message, the copies inside the buffer and the panics at an index are kept as they
are.  A call of `read` takes the results of its own reads off the list and leaves the others to
the next call.
-/

namespace RustCourse.NetworkChat.Stage02

open Lines

/-! ## Sizes and errors -/

/-- The length of `buffer`. -/
def bufferSize : ℕ := 1024

/-- `10 == newline` -/
def newline : UInt8 := 10

/-- Why a reader fails. -/
inductive ChatReaderError
  | io
  | serialization
  deriving DecidableEq, Repr

/-- What a reader returns. -/
abbrev ChatResult (T : Type*) := Except ChatReaderError T

variable {T : Type*}

/-! ## The writer -/

/-- `MessageWriter::send` on a socket that takes every byte; `encode` is `serde_json::to_vec`. -/
def MessageWriter.send (encode : T → List UInt8) (sink : List UInt8) (msg : T) : List UInt8 :=
  sink ++ encode msg ++ [newline]

/-- The bytes written by one `send` for each message. -/
def sendAll (encode : T → List UInt8) (msgs : List T) : List UInt8 :=
  msgs.foldl (MessageWriter.send encode) []

theorem foldl_send (encode : T → List UInt8) (msgs : List T) (sink : List UInt8) :
    msgs.foldl (MessageWriter.send encode) sink =
      sink ++ unlines newline (msgs.map encode) := by
  induction msgs generalizing sink with
  | nil => simp
  | cons msg rest ih => simp [MessageWriter.send, ih]

theorem sendAll_eq (encode : T → List UInt8) (msgs : List T) :
    sendAll encode msgs = unlines newline (msgs.map encode) :=
  foldl_send encode msgs []

/-! ## The reader -/

/-- What `socket.read(buf)` returns. -/
inductive ReadResult
  | ok (bytes : List UInt8)
  | err
  deriving DecidableEq, Repr

/-- The buffer of the reader, and how much of it is filled. -/
structure MessageReader where
  buffer : List UInt8
  size : ℕ
  filled : buffer.length = bufferSize
  deriving DecidableEq

namespace MessageReader

/-- `MessageReader::new` -/
def new : MessageReader := ⟨List.replicate bufferSize 0, 0, List.length_replicate⟩

/-- The bytes of a read are at `buffer[size..]`. -/
def fill (r : MessageReader) (size : ℕ) (bytes : List UInt8)
    (hfit : size + bytes.length ≤ bufferSize) : MessageReader :=
  { r with
    buffer := r.buffer.take size ++ bytes ++ r.buffer.drop (size + bytes.length)
    filled := by
      have := r.filled
      simp only [List.length_append, List.length_take, List.length_drop]
      omega }

/-- `buffer.copy_within(start.., 0)` -/
def copyWithin (r : MessageReader) (start : ℕ) : MessageReader :=
  { r with
    buffer := r.buffer.drop start ++ r.buffer.drop (bufferSize - start)
    filled := by
      have := r.filled
      simp only [List.length_append, List.length_drop]
      omega }

/-- The loop of `read`, with the local `size`; undefined if a read hands out more bytes than there
is room for.  A read into the empty rest of a full buffer returns `Ok(0)`. -/
def readLoop (decode : List UInt8 → Option T) : List ReadResult → ℕ → MessageReader →
    Option (Option (ChatResult T) × MessageReader × List ReadResult)
  | [], _, r => some (none, r, [])
  | .err :: socket, size, r =>
      if size = bufferSize then some (none, r, .err :: socket)
      else some (some (.error .io), r, socket)
  | .ok bytes :: socket, size, r =>
      if size = bufferSize then some (none, r, .ok bytes :: socket)
      else if bytes = [] then some (none, r, socket)
      else if hfit : size + bytes.length ≤ bufferSize then
        let r := r.fill size bytes hfit
        let size := size + bytes.length
        let loaded := r.buffer.take size
        if newline ∈ loaded then
          let position := loaded.idxOf newline
          match decode (loaded.take position) with
          | some msg => some (some (.ok msg), r.copyWithin (position + 1), socket)
          | none => some (some (.error .serialization), r, socket)
        else readLoop decode socket size r
      else none

/-- `MessageReader::read`; `decode` is `serde_json::from_slice`. -/
def read (decode : List UInt8 → Option T) (socket : List ReadResult) (r : MessageReader) :
    Option (Option (ChatResult T) × MessageReader × List ReadResult) :=
  readLoop decode socket 0 r

/-- The results of successive calls of `read`. -/
def readAll (decode : List UInt8 → Option T) :
    ℕ → MessageReader → List ReadResult → Option (List (Option (ChatResult T)))
  | 0, _, _ => some []
  | calls + 1, r, socket =>
      (read decode socket r).bind fun (got, r, socket) =>
        (readAll decode calls r socket).map (got :: ·)

/-! ## One call -/

/-- `serde_json::from_slice`, with the error it is returned with. -/
def parse (decode : List UInt8 → Option T) (line : List UInt8) : ChatResult T :=
  match decode line with
  | some msg => .ok msg
  | none => .error .serialization

/-- **What a call does** when `loaded` is what it has read and `pieces` are what the next reads
hand out. -/
inductive Call (decode : List UInt8 → Option T) (loaded : List UInt8) :
    List (List UInt8) → Option (ChatResult T) → List (List UInt8) → Prop
  | ended {pieces} : newline ∉ loaded ++ pieces.flatten → Call decode loaded pieces none []
  | full {taken rest} : newline ∉ loaded ++ taken.flatten →
      (loaded ++ taken.flatten).length = bufferSize → Call decode loaded (taken ++ rest) none rest
  | line {init last rest} : newline ∉ loaded ++ init.flatten → newline ∈ last →
      Call decode loaded (init ++ last :: rest)
        (some (parse decode (firstLine newline (loaded ++ init.flatten ++ last)))) rest

variable {decode : List UInt8 → Option T} {pieces rest : List (List UInt8)}
  {r r' : MessageReader} {size : ℕ} {socket : List ReadResult} {got : Option (ChatResult T)}

theorem take_fill {bytes : List UInt8} (hfit : size + bytes.length ≤ bufferSize) :
    (r.fill size bytes hfit).buffer.take (size + bytes.length) =
      r.buffer.take size ++ bytes := by
  have hlength : (r.buffer.take size ++ bytes).length = size + bytes.length := by
    have := r.filled
    rw [List.length_append, List.length_take]
    omega
  exact List.take_left' hlength

/-- A piece that is loaded first is one that has been loaded. -/
theorem Call.cons {loaded piece : List UInt8}
    (h : Call decode (loaded ++ piece) pieces got rest) :
    Call decode loaded (piece :: pieces) got rest := by
  cases h with
  | ended hnone => exact .ended (by simpa using hnone)
  | @full taken _ hnone hlength =>
      have hcall : Call decode loaded ((piece :: taken) ++ rest) none rest :=
        .full (by simpa using hnone) (by simpa using hlength)
      exact hcall
  | @line init last _ hnone hline =>
      have hcall : Call decode loaded ((piece :: init) ++ last :: rest)
          (some (parse decode (firstLine newline (loaded ++ (piece :: init).flatten ++ last))))
          rest := .line (by simpa using hnone) hline
      simpa using hcall

private theorem call_of_readLoop
    (h : readLoop decode (pieces.map .ok) size r = some (got, r', socket))
    (hsize : size ≤ bufferSize) (hpieces : ∀ piece ∈ pieces, piece ≠ [])
    (hloaded : newline ∉ r.buffer.take size) :
    ∃ rest, socket = rest.map .ok ∧ Call decode (r.buffer.take size) pieces got rest := by
  -- on the pieces the socket still has to give
  induction pieces generalizing size r with
  | nil =>
      cases h
      exact ⟨[], rfl, .ended (by simpa using hloaded)⟩
  | cons piece pieces ih =>
      rw [List.map_cons, readLoop] at h
      -- the buffer is full: the call gives up before it reads
      by_cases hfull : size = bufferSize
      · have hlength : (r.buffer.take size).length = bufferSize := by
          rw [List.length_take, r.filled, hfull, Nat.min_self]
        have hcall : Call decode (r.buffer.take size) ([] ++ piece :: pieces) none
            (piece :: pieces) := .full (by simpa using hloaded) (by simpa using hlength)
        rw [if_pos hfull] at h
        cases h
        exact ⟨piece :: pieces, rfl, hcall⟩
      · rw [if_neg hfull, if_neg (hpieces piece List.mem_cons_self)] at h
        split at h
        · next hfit =>
            simp only [take_fill] at h
            split at h
            -- the newline is in the last piece, as the bytes before it were searched already
            · next hmem =>
                have hlast : newline ∈ piece := (List.mem_append.mp hmem).resolve_left hloaded
                have hcall : Call decode (r.buffer.take size) ([] ++ piece :: pieces)
                    (some (parse decode (firstLine newline
                      (r.buffer.take size ++ [].flatten ++ piece)))) pieces :=
                  .line (by simpa using hloaded) hlast
                rw [List.flatten_nil, List.append_nil, parse, firstLine] at hcall
                refine ⟨pieces, ?_⟩
                split at h
                · next hdecode =>
                    cases h
                    rw [hdecode] at hcall
                    exact ⟨rfl, hcall⟩
                · next hdecode =>
                    cases h
                    rw [hdecode] at hcall
                    exact ⟨rfl, hcall⟩
            -- no newline yet: the loop goes on with the longer buffer
            · next hnone =>
                have hloaded' : newline ∉ (r.fill size piece hfit).buffer.take
                    (size + piece.length) := by
                  rwa [take_fill]
                obtain ⟨rest, hrest, hcall⟩ := ih h hfit
                  (fun p hp => hpieces p (List.mem_cons_of_mem _ hp)) hloaded'
                rw [take_fill] at hcall
                exact ⟨rest, hrest, hcall.cons⟩
        · cases h

/-- **The rule for `read`.**  Whatever is in the buffer, a call starts from nothing. -/
theorem call_of_read (h : read decode (pieces.map .ok) r = some (got, r', socket))
    (hpieces : ∀ piece ∈ pieces, piece ≠ []) :
    ∃ rest, socket = rest.map .ok ∧ Call decode [] pieces got rest :=
  call_of_readLoop h (Nat.zero_le _) hpieces List.not_mem_nil

end MessageReader

end RustCourse.NetworkChat.Stage02
