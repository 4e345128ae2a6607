import RustCourse.Lib.Lines

/-!
# The lesson 09 message reader

`lessons/09/exercises/src/reader.rs`.  A `MessageReader` is its loaded bytes, that is
`buffer[..loaded]`; what lies behind them in the buffer is never read.  The stream is a
state and a function that answers one `read`; the answer depends on a choice of the
environment, such as how many of the bytes that have arrived it hands out.

`recv` takes the choices for its reads as a list, and is undefined if there are too few
or too many of them.

A `recv` is a loop around `inspect`, which looks for a newline and then at the size.
`recv_rule` is the rule for this loop: an invariant that every read keeps, and what it says at
each of the ways out.  What a `recv` returns and what it leaves is proved with it.
-/

namespace RustCourse.Lesson09

open Lines

/-! ## The reader -/

/-- `MAX_MESSAGE_SIZE` -/
def maxMessageSize : ℕ := 256

/-- The length of `buffer`. -/
def bufferSize : ℕ := maxMessageSize * 4

/-- `b'\n'` -/
def newline : UInt8 := 10

/-- What `stream.read(buf)` returns when `buf` has the length `free`. -/
inductive ReadOutcome (free : ℕ)
  /-- `Ok(n)` for `n > 0`, and the bytes read -/
  | bytes (bs : List UInt8) (hpos : 0 < bs.length) (hfit : bs.length ≤ free)
  /-- `Ok(0)` -/
  | eof
  | wouldBlock
  | err

/-- What `recv` returns: `None` is `eof`, and `wouldBlock` is the error of that kind. -/
inductive Received (T : Type*)
  | msg (msg : T)
  | wouldBlock
  /-- "Too large message" -/
  | tooLarge
  /-- `serde_json::from_slice` failed -/
  | malformed
  /-- the stream failed -/
  | err
  | eof
  deriving DecidableEq, Repr

/-- The bytes that were read and not handled, of which the buffer has room for. -/
structure MessageReader where
  loaded : List UInt8
  fits : loaded.length ≤ bufferSize
  deriving DecidableEq

variable {T σ ℓ : Type*}

namespace MessageReader

/-- `MessageReader::new` -/
def new : MessageReader := ⟨[], Nat.zero_le _⟩

/-- The length of `buffer[loaded..]`. -/
def free (r : MessageReader) : ℕ := bufferSize - r.loaded.length

/-- The bytes before the first newline. -/
def line (r : MessageReader) : List UInt8 := r.loaded.take (r.loaded.idxOf newline)

/-- `copy_within(position + 1.., 0)` -/
def shift (r : MessageReader) : MessageReader where
  loaded := r.loaded.drop (r.loaded.idxOf newline + 1)
  fits := by
    have := r.fits
    rw [List.length_drop]
    omega

/-- The bytes of a read are behind the loaded ones. -/
def load (r : MessageReader) (bs : List UInt8) (hfit : bs.length ≤ r.free) : MessageReader where
  loaded := r.loaded ++ bs
  fits := by
    have := r.fits
    unfold free at hfit
    rw [List.length_append]
    omega

/-- One turn of the loop of `recv` up to the `read`: what it returns, if it does. -/
def inspect (decode : List UInt8 → Option T) (r : MessageReader) :
    Option (Received T × MessageReader) :=
  if newline ∈ r.loaded then
    match decode r.line with
    | some msg => some (.msg msg, r.shift)
    -- the line stays in the buffer
    | none => some (.malformed, r)
  else if maxMessageSize ≤ r.loaded.length then some (.tooLarge, r)
  else none

/-- `recv` -/
def recv (decode : List UInt8 → Option T)
    (read : σ → (free : ℕ) → ℓ → Option (ReadOutcome free × σ)) :
    List ℓ → MessageReader → σ → Option (Received T × MessageReader × σ)
  | [], r, stream => (r.inspect decode).map fun result => (result.1, result.2, stream)
  | choice :: rest, r, stream =>
      match r.inspect decode, read stream r.free choice with
      | none, some (.bytes bs _ hfit, stream') => recv decode read rest (r.load bs hfit) stream'
      | none, some (.eof, stream') => if rest.isEmpty then some (.eof, r, stream') else none
      | none, some (.wouldBlock, stream') =>
          if rest.isEmpty then some (.wouldBlock, r, stream') else none
      | none, some (.err, stream') => if rest.isEmpty then some (.err, r, stream') else none
      | _, _ => none

/-! ## What a `recv` does -/

/-- What `recv` can return without another read. -/
inductive Inspected (decode : List UInt8 → Option T) (r : MessageReader) :
    Received T → MessageReader → Prop
  | msg {msg} : newline ∈ r.loaded → decode r.line = some msg →
      Inspected decode r (.msg msg) r.shift
  | malformed : newline ∈ r.loaded → decode r.line = none → Inspected decode r .malformed r
  | tooLarge : newline ∉ r.loaded → maxMessageSize ≤ r.loaded.length →
      Inspected decode r .tooLarge r

theorem inspected {decode : List UInt8 → Option T} {r r' : MessageReader} {got : Received T}
    (h : r.inspect decode = some (got, r')) : Inspected decode r got r' := by
  unfold inspect at h
  split at h
  · next hline =>
      split at h <;> cases h
      · next hmsg => exact .msg hline hmsg
      · next hmsg => exact .malformed hline hmsg
  · next hline =>
      split at h <;> cases h
      next hlong => exact .tooLarge hline hlong

theorem newline_notMem_of_inspect {decode : List UInt8 → Option T} {r : MessageReader}
    (h : r.inspect decode = none) : newline ∉ r.loaded := by
  intro hline
  simp only [inspect, hline, if_true] at h
  split at h <;> cases h

theorem length_lt_of_inspect {decode : List UInt8 → Option T} {r : MessageReader}
    (h : r.inspect decode = none) : r.loaded.length < maxMessageSize := by
  by_contra hle
  simp only [inspect, newline_notMem_of_inspect h, if_false, Nat.le_of_not_lt hle, if_true] at h
  cases h

/-- When `recv` reads there is room in the buffer. -/
theorem free_pos_of_inspect {decode : List UInt8 → Option T} {r : MessageReader}
    (h : r.inspect decode = none) : 0 < r.free := by
  have := length_lt_of_inspect h
  unfold free bufferSize
  omega

/-- **How a `recv` ends**, seen from its last look at the buffer. -/
inductive Ends (decode : List UInt8 → Option T)
    (read : σ → (free : ℕ) → ℓ → Option (ReadOutcome free × σ)) (r : MessageReader) (stream : σ) :
    Received T → MessageReader → σ → Prop
  | inspected {got r'} : r.inspect decode = some (got, r') → Ends decode read r stream got r' stream
  | eof {choice stream'} : r.inspect decode = none →
      read stream r.free choice = some (.eof, stream') →
      Ends decode read r stream .eof r stream'
  | wouldBlock {choice stream'} : r.inspect decode = none →
      read stream r.free choice = some (.wouldBlock, stream') →
      Ends decode read r stream .wouldBlock r stream'
  | err {choice stream'} : r.inspect decode = none →
      read stream r.free choice = some (.err, stream') →
      Ends decode read r stream .err r stream'

/-- **The rule for `recv`.**  What is kept by every read that hands out bytes holds when
`recv` looks at its buffer for the last time. -/
theorem recv_rule {decode : List UInt8 → Option T}
    {read : σ → (free : ℕ) → ℓ → Option (ReadOutcome free × σ)} {P : MessageReader → σ → Prop}
    {choices : List ℓ} {r r' : MessageReader} {stream stream' : σ} {got : Received T}
    (h : recv decode read choices r stream = some (got, r', stream')) (hstart : P r stream)
    (hload : ∀ r stream choice bs hpos hfit stream', P r stream →
      read stream r.free choice = some (.bytes bs hpos hfit, stream') →
      P (r.load bs hfit) stream') :
    ∃ r₀ stream₀, P r₀ stream₀ ∧ Ends decode read r₀ stream₀ got r' stream' := by
  induction choices generalizing r stream with
  | nil =>
      obtain ⟨result, hresult, heq⟩ := Option.map_eq_some_iff.mp h
      cases heq
      exact ⟨_, _, hstart, .inspected hresult⟩
  | cons choice rest ih =>
      simp only [recv] at h
      split at h
      · next hread => exact ih h (hload _ _ _ _ _ _ _ hstart hread)
      · next hinspect hread =>
          split at h <;> cases h
          exact ⟨_, _, hstart, .eof hinspect hread⟩
      · next hinspect hread =>
          split at h <;> cases h
          exact ⟨_, _, hstart, .wouldBlock hinspect hread⟩
      · next hinspect hread =>
          split at h <;> cases h
          exact ⟨_, _, hstart, .err hinspect hread⟩
      · cases h

/-! ## Lines -/

@[simp] theorem loaded_load (r : MessageReader) (bs : List UInt8) (hfit : bs.length ≤ r.free) :
    (r.load bs hfit).loaded = r.loaded ++ bs := rfl

theorem line_eq (r : MessageReader) : r.line = firstLine newline r.loaded := rfl

@[simp] theorem loaded_shift (r : MessageReader) :
    r.shift.loaded = afterLine newline r.loaded := rfl

/-- A line is what stands before the newline that ends it. -/
theorem line_append_shift {r : MessageReader} (h : newline ∈ r.loaded) :
    r.loaded = r.line ++ newline :: r.shift.loaded :=
  firstLine_append_afterLine h

private theorem newline_notMem_line (r : MessageReader) : newline ∉ r.line :=
  sep_notMem_firstLine newline r.loaded

/-- Taking a line takes one newline. -/
theorem count_shift {r : MessageReader} (h : newline ∈ r.loaded) :
    r.loaded.count newline = r.shift.loaded.count newline + 1 := by
  conv_lhs => rw [line_append_shift h]
  rw [List.count_append, List.count_cons_self,
    List.count_eq_zero.mpr r.newline_notMem_line]
  omega

end MessageReader

end RustCourse.Lesson09
