import RustCourse.Chat.Messages
import RustCourse.Lesson09.Codec

/-!
# What the lesson 09 reader makes of chunks

The check for messages that are too large looks at what is loaded, and only if no newline
is.  A line of at least `MAX_MESSAGE_SIZE` bytes that still fits into the buffer, four
times that long, is therefore accepted if its newline arrives with it and rejected if a
read ends between the limit and the newline.  `same_results_iff` says that this is the
only way in which the results depend on the reads: they do if and only if such a line is
reached (`Ambiguous`).

## Strategy

If no ambiguous line is reached, one call of `recv` answers the same whatever the reads are
(`Answers.unique`), and so do successive calls (`calls_agree`).  If one is reached, the two
ways to read it are run: the line arrives at once, or a read ends between the limit and the
newline (`exists_two_results`).
-/

namespace RustCourse.Lesson09

open Codec Lines MessageReader

variable {T : Type*} {decode : List UInt8 → Option T}

/-! ## Sessions -/

/-- A read of a stream that is never blocked. -/
def Stream.deliver (stream : Stream) (free n : ℕ) : Option (ReadOutcome free × Stream) :=
  stream.read free (.bytes n)

/-- A sequence of results up to the first error or `None`. -/
def Finished (gots : List (Received T)) : Prop :=
  ∃ (msgs : List T) (last : Received T),
    gots = msgs.map Received.msg ++ [last] ∧ ∀ msg, last ≠ .msg msg

/-- The results of successive calls of `recv` on a stream with these bytes, up to the first
error or `None`; `calls` are the sizes of the reads, call by call. -/
def Session (decode : List UInt8 → Option T) (bytes : List UInt8) (calls : List (List ℕ))
    (gots : List (Received T)) : Prop :=
  Finished gots ∧
    ∃ r stream, recvAll decode Stream.deliver calls .new ⟨bytes, []⟩ = some (gots, r, stream)

/-- After lines that are received there is one that is over the limit and fits into the
buffer with its newline. -/
def Ambiguous (decode : List UInt8 → Option T) (bytes : List UInt8) : Prop :=
  ∃ before line after, bytes = unlines newline before ++ (line ++ newline :: after) ∧
    (∀ earlier ∈ before,
      newline ∉ earlier ∧ earlier.length < maxMessageSize ∧ (decode earlier).isSome) ∧
    newline ∉ line ∧ maxMessageSize ≤ line.length ∧ line.length < bufferSize

/-! ## Sequences of results -/

theorem Finished.cons {gots : List (Received T)} (h : Finished gots) (msg : T) :
    Finished (.msg msg :: gots) := by
  obtain ⟨msgs, last, rfl, hlast⟩ := h
  exact ⟨msg :: msgs, last, rfl, hlast⟩

theorem Finished.single {got : Received T} (h : ∀ msg, got ≠ .msg msg) : Finished [got] :=
  ⟨[], got, rfl, h⟩

theorem Finished.tail {gots : List (Received T)} {msg : T} (h : Finished (.msg msg :: gots)) :
    Finished gots := by
  obtain ⟨msgs, last, heq, hlast⟩ := h
  cases msgs with
  | nil =>
      cases heq
      exact absurd rfl (hlast msg)
  | cons first msgs =>
      cases heq
      exact ⟨msgs, last, rfl, hlast⟩

theorem Finished.eq_nil {gots : List (Received T)} {got : Received T}
    (h : Finished (got :: gots)) (hgot : ∀ msg, got ≠ .msg msg) : gots = [] := by
  obtain ⟨msgs, last, heq, -⟩ := h
  cases msgs with
  | nil =>
      cases heq
      rfl
  | cons first msgs =>
      cases heq
      exact absurd rfl (hgot first)

private theorem not_finished_nil : ¬ Finished ([] : List (Received T)) := by
  rintro ⟨msgs, last, heq, -⟩
  simp at heq

/-! ## Streams that are never blocked -/

private theorem recv_deliver (sizes : List ℕ) (r : MessageReader) (stream : Stream) :
    recv decode Stream.deliver sizes r stream =
      recv decode Stream.read (sizes.map .bytes) r stream := by
  induction sizes generalizing r stream with
  | nil => rfl
  | cons n sizes ih =>
      simp only [recv, List.map_cons, Stream.deliver, ih, List.isEmpty_map]

/-- A `recv` is blocked by a read that is. -/
theorem deliver_ne_wouldBlock {sizes : List ℕ} {r r' : MessageReader} {stream stream' : Stream}
    {got : Received T} (h : recv decode Stream.deliver sizes r stream = some (got, r', stream')) :
    got ≠ .wouldBlock := by
  rintro rfl
  obtain ⟨r₀, stream₀, -, hends⟩ := recv_rule (P := fun _ _ => True) h trivial
    fun _ _ _ _ _ _ _ _ _ => trivial
  cases hends with
  | inspected hinspect => cases inspected hinspect
  | wouldBlock _ hread => cases Stream.reads_of_read hread

private theorem answers_of_deliver {sizes : List ℕ} {r r' : MessageReader} {stream stream' : Stream}
    {got : Received T} (h : recv decode Stream.deliver sizes r stream = some (got, r', stream')) :
    Answers decode (r.loaded ++ stream.unread) got (r'.loaded ++ stream'.unread) := by
  rw [recv_deliver] at h
  exact (answers_of_recv h).1

/-- What a `recv` on a stream that is never blocked can return, and what it leaves. -/
def Returns (decode : List UInt8 → Option T) (text : List UInt8) (got : Received T)
    (rest : List UInt8) : Prop :=
  Answers decode text got rest ∧ got ≠ .wouldBlock

private theorem calls_of_deliver {calls : List (List ℕ)} {r r' : MessageReader}
    {stream stream' : Stream} {gots : List (Received T)}
    (h : recvAll decode Stream.deliver calls r stream = some (gots, r', stream')) :
    Calls (Returns decode) (r.loaded ++ stream.unread) gots (r'.loaded ++ stream'.unread) :=
  calls_of_recvAll (fun r stream => r.loaded ++ stream.unread)
    (fun _ _ _ _ _ _ hrecv => ⟨answers_of_deliver hrecv, deliver_ne_wouldBlock hrecv⟩) h

/-- A message is the first line. -/
theorem MessageReader.Answers.of_msg {text rest : List UInt8} {msg : T}
    (h : Answers decode text (.msg msg) rest) :
    newline ∈ text ∧ (firstLine newline text).length < bufferSize ∧
      decode (firstLine newline text) = some msg ∧ rest = afterLine newline text := by
  cases h with
  | msg hline hfits hdecode => exact ⟨hline, hfits, hdecode, rfl⟩

/-- Whatever the sizes of the reads are, successive calls come to an error or `None`. -/
theorem exists_recvAll (decode : List UInt8 → Option T) (sizes : ℕ → ℕ) (r : MessageReader)
    (stream : Stream) :
    ∃ calls gots r' stream', calls.flatten = (List.range calls.flatten.length).map sizes ∧
      Finished gots ∧
      recvAll decode Stream.deliver calls r stream = some (gots, r', stream') := by
  induction hlength : (r.loaded ++ stream.unread).length using Nat.strongRecOn
    generalizing sizes r stream with
  | _ length ih =>
      obtain ⟨n, hn⟩ := exists_recv decode (fun i => .bytes (sizes i)) r stream
      obtain ⟨⟨got, r₁, stream₁⟩, hrecv⟩ := Option.isSome_iff_exists.mp hn
      have hdeliver : recv decode Stream.deliver ((List.range n).map sizes) r stream =
          some (got, r₁, stream₁) := by
        rw [recv_deliver, List.map_map]
        exact hrecv
      by_cases hmsg : ∃ msg, got = .msg msg
      · obtain ⟨msg, rfl⟩ := hmsg
        have hshorter : (r₁.loaded ++ stream₁.unread).length < length := by
          rw [← hlength]
          obtain ⟨hline, -, -, hrest⟩ := (answers_of_deliver hdeliver).of_msg
          rw [hrest]
          exact length_afterLine_lt hline
        obtain ⟨calls, gots, r', stream', hflat, hfinished, hcalls⟩ :=
          ih _ hshorter (fun i => sizes (n + i)) r₁ stream₁ rfl
        refine ⟨(List.range n).map sizes :: calls, .msg msg :: gots, r', stream', ?_,
          hfinished.cons msg, by simp [recvAll, hdeliver, hcalls]⟩
        rw [List.flatten_cons, List.length_append, List.length_map, List.length_range,
          List.range_add, List.map_append, List.map_map]
        exact congrArg _ hflat
      · exact ⟨[(List.range n).map sizes], [got], r₁, stream₁, by simp,
          .single (not_exists.mp hmsg), by simp [recvAll, hdeliver]⟩

/-! ## Reads that agree -/

/-- A line of a length at which the reads decide comes first. -/
def Undecided (text : List UInt8) : Prop :=
  newline ∈ text ∧ maxMessageSize ≤ (firstLine newline text).length ∧
    (firstLine newline text).length < bufferSize

theorem Undecided.ambiguous {text : List UInt8} (h : Undecided text) : Ambiguous decode text :=
  ⟨[], firstLine newline text, afterLine newline text, firstLine_append_afterLine h.1,
    by simp, sep_notMem_firstLine newline text, h.2⟩

/-- A text is ambiguous if it is after its first line was received. -/
theorem Ambiguous.of_afterLine {text : List UInt8} (hline : newline ∈ text)
    (hshort : (firstLine newline text).length < maxMessageSize)
    (hdecode : (decode (firstLine newline text)).isSome)
    (h : Ambiguous decode (afterLine newline text)) : Ambiguous decode text := by
  obtain ⟨before, line, after, heq, hbefore, hlong⟩ := h
  refine ⟨firstLine newline text :: before, line, after, ?_, ?_, hlong⟩
  · calc text
        = firstLine newline text ++ newline :: afterLine newline text :=
          firstLine_append_afterLine hline
      _ = unlines newline (firstLine newline text :: before) ++ (line ++ newline :: after) := by
          rw [heq, unlines_cons, List.append_assoc, List.cons_append]
  · intro earlier hearlier
    rcases List.mem_cons.mp hearlier with rfl | hearlier
    · exact ⟨sep_notMem_firstLine newline text, hshort, hdecode⟩
    · exact hbefore earlier hearlier

/-- A first line that does not fit is too large, and no other. -/
theorem MessageReader.Answers.unique {text rest rest' : List UInt8} {got got' : Received T}
    (hdecided : ¬ Undecided text) (h : Answers decode text got rest)
    (h' : Answers decode text got' rest') (hgot : got ≠ .wouldBlock) (hgot' : got' ≠ .wouldBlock) :
    got = got' ∧ rest = rest' := by
  -- a line between the limit and the size of the buffer would be undecided
  have hlimit : newline ∈ text → (firstLine newline text).length < bufferSize →
      maxMessageSize ≤ (firstLine newline text).length → False :=
    fun hline hfits hlong => hdecided ⟨hline, hlong, hfits⟩
  have hshort : newline ∉ text → text.length < maxMessageSize →
      maxMessageSize ≤ (firstLine newline text).length → False := by
    intro hline hshort hlong
    rw [firstLine_of_notMem hline] at hlong
    omega
  -- one case for each pair of answers; only the same answer twice is possible
  cases h with
  | wouldBlock => exact absurd rfl hgot
  | msg hline hfits hdecode =>
      cases h' with
      | wouldBlock => exact absurd rfl hgot'
      | msg _ _ hdecode' =>
          rw [hdecode, Option.some.injEq] at hdecode'
          exact ⟨congrArg _ hdecode', rfl⟩
      | malformed _ _ hdecode' =>
          rw [hdecode] at hdecode'
          cases hdecode'
      | tooLarge hlong => exact (hlimit hline hfits hlong).elim
      | eof hnone => exact absurd hline hnone
  | malformed hline hfits hdecode =>
      cases h' with
      | wouldBlock => exact absurd rfl hgot'
      | msg _ _ hdecode' =>
          rw [hdecode] at hdecode'
          cases hdecode'
      | malformed => exact ⟨rfl, rfl⟩
      | tooLarge hlong => exact (hlimit hline hfits hlong).elim
      | eof hnone => exact absurd hline hnone
  | tooLarge hlong =>
      cases h' with
      | wouldBlock => exact absurd rfl hgot'
      | msg hline hfits | malformed hline hfits => exact (hlimit hline hfits hlong).elim
      | tooLarge => exact ⟨rfl, rfl⟩
      | eof hnone hshort' => exact (hshort hnone hshort' hlong).elim
  | eof hnone hshort' =>
      cases h' with
      | wouldBlock => exact absurd rfl hgot'
      | msg hline | malformed hline => exact absurd hline hnone
      | tooLarge hlong => exact (hshort hnone hshort' hlong).elim
      | eof => exact ⟨rfl, rfl⟩

/-- Two sequences of calls on one text return the same, unless it is ambiguous. -/
theorem calls_agree {text rest rest' : List UInt8} {gots gots' : List (Received T)}
    (h : Calls (Returns decode) text gots rest) (h' : Calls (Returns decode) text gots' rest')
    (hclear : ¬ Ambiguous decode text) (hfinished : Finished gots) (hfinished' : Finished gots') :
    gots = gots' := by
  induction h generalizing gots' with
  | nil => exact absurd hfinished not_finished_nil
  | @cons text left _ got gots hreturns hcalls ih =>
      cases h' with
      | nil => exact absurd hfinished' not_finished_nil
      | @cons _ left' _ got' gots' hreturns' hcalls' =>
          obtain ⟨rfl, rfl⟩ := Answers.unique (fun hundecided => hclear hundecided.ambiguous)
            hreturns.1 hreturns'.1 hreturns.2 hreturns'.2
          by_cases hmsg : ∃ msg, got = .msg msg
          · obtain ⟨msg, rfl⟩ := hmsg
            obtain ⟨hline, hfits, hdecode, rfl⟩ := hreturns.1.of_msg
            have hclear' : ¬ Ambiguous decode (afterLine newline text) := by
              intro hambiguous
              refine hclear (hambiguous.of_afterLine hline ?_ (by simp [hdecode]))
              by_contra hlong
              exact hclear (Undecided.ambiguous ⟨hline, Nat.le_of_not_lt hlong, hfits⟩)
            rw [ih hcalls' hclear' hfinished.tail hfinished'.tail]
          · rw [hfinished.eq_nil (not_exists.mp hmsg), hfinished'.eq_nil (not_exists.mp hmsg)]

/-! ## Reads that do not agree -/

private theorem inspect_new : MessageReader.new.inspect decode = none := rfl

/-- One read of a stream from an empty buffer. -/
theorem recv_new (decode : List UInt8 → Option T) {n : ℕ} {unread : List UInt8} (sizes : List ℕ)
    (offered : List ℕ) (hpos : 0 < n) (hfits : n ≤ bufferSize) (hleft : n ≤ unread.length) :
    ∃ r : MessageReader, r.loaded = unread.take n ∧
      recv decode Stream.deliver (n :: sizes) .new ⟨unread, offered⟩ =
        recv decode Stream.deliver sizes r ⟨unread.drop n, offered ++ [bufferSize]⟩ := by
  have hamount : Stream.amount ⟨unread, offered⟩ MessageReader.new.free n = n := by
    show max 1 (min n (min bufferSize unread.length)) = n
    omega
  have hread : 0 < MessageReader.new.free ∧ 0 < unread.length := ⟨by decide, by omega⟩
  have hfree : (unread.take n).length ≤ MessageReader.new.free := by
    rw [List.length_take, Nat.min_eq_left hleft]
    exact hfits
  refine ⟨MessageReader.new.load (unread.take n) hfree, List.nil_append _, ?_⟩
  simp only [recv, inspect_new, Stream.deliver, Stream.read, hread, and_self, dif_pos]
  congr 1
  · simp only [MessageReader.load, hamount]
  · rw [hamount]
    rfl

/-- A read that delivers a line with its newline. -/
theorem recv_line (decode : List UInt8 → Option T) (line rest : List UInt8) (offered : List ℕ)
    (hfits : line.length < bufferSize) :
    ∃ r : MessageReader, r.loaded = line ++ [newline] ∧
      recv decode Stream.deliver [line.length + 1] .new ⟨line ++ newline :: rest, offered⟩ =
        (r.inspect decode).map fun result =>
          (result.1, result.2, ⟨rest, offered ++ [bufferSize]⟩) := by
  have hlength : line.length + 1 = (line ++ [newline]).length := by simp
  have happend : line ++ newline :: rest = (line ++ [newline]) ++ rest := by simp
  have hleft : line.length + 1 ≤ (line ++ newline :: rest).length := by simp
  have hpos : 0 < line.length + 1 := by omega
  obtain ⟨r, hloaded, hrecv⟩ := recv_new decode [] offered hpos hfits hleft
  refine ⟨r, ?_, ?_⟩
  · rw [hloaded, happend, hlength, List.take_left]
  · rw [hrecv, happend, hlength, List.drop_left]
    rfl

private theorem recv_received {line : List UInt8} {msg : T} (hline : newline ∉ line)
    (hfits : line.length < bufferSize) (hdecode : decode line = some msg) (rest : List UInt8)
    (offered : List ℕ) :
    recv decode Stream.deliver [line.length + 1] .new ⟨line ++ newline :: rest, offered⟩ =
      some (.msg msg, .new, ⟨rest, offered ++ [bufferSize]⟩) := by
  obtain ⟨r, hloaded, hrecv⟩ := recv_line decode line rest offered hfits
  have hmem : newline ∈ r.loaded := by simp [hloaded]
  have hmsg : decode r.line = some msg := by
    rw [line_eq, hloaded, firstLine_line hline, hdecode]
  have hshift : r.shift = .new := by
    have hempty : r.shift.loaded = [] := by rw [loaded_shift, hloaded, afterLine_line hline]
    cases hr : r.shift
    simp_all [MessageReader.new]
  rw [hrecv, inspect, if_pos hmem, hmsg, hshift]
  rfl

/-- A read that ends at the limit of a line that goes on. -/
theorem recv_tooLarge {line : List UInt8} (hline : newline ∉ line)
    (hlong : maxMessageSize ≤ line.length) (decode : List UInt8 → Option T) (rest : List UInt8)
    (offered : List ℕ) :
    ∃ r stream, recv decode Stream.deliver [maxMessageSize] .new
      ⟨line ++ newline :: rest, offered⟩ = some (.tooLarge, r, stream) := by
  have hleft : maxMessageSize ≤ (line ++ newline :: rest).length := by
    rw [List.length_append]
    omega
  obtain ⟨r, hloaded, hrecv⟩ := recv_new decode [] offered (by decide) (by decide) hleft
  rw [List.take_append_of_le_length hlong] at hloaded
  have hmem : newline ∉ r.loaded := by
    rw [hloaded]
    exact fun h => hline (List.mem_of_mem_take h)
  have hlength : maxMessageSize ≤ r.loaded.length := by
    rw [hloaded, List.length_take, Nat.min_eq_left hlong]
  refine ⟨r, ⟨(line ++ newline :: rest).drop maxMessageSize, offered ++ [bufferSize]⟩, ?_⟩
  rw [hrecv, recv, inspect, if_neg hmem, if_pos hlength]
  rfl

/-- Calls on a fresh reader, up to the first error or `None`. -/
def Reaches (decode : List UInt8 → Option T) (unread : List UInt8) (offered : List ℕ)
    (gots : List (Received T)) : Prop :=
  Finished gots ∧ ∃ calls r stream,
    recvAll decode Stream.deliver calls .new ⟨unread, offered⟩ = some (gots, r, stream)

theorem Reaches.cons {line rest : List UInt8} {offered : List ℕ} {msg : T}
    {gots : List (Received T)} (hline : newline ∉ line) (hfits : line.length < bufferSize)
    (hdecode : decode line = some msg)
    (h : Reaches decode rest (offered ++ [bufferSize]) gots) :
    Reaches decode (line ++ newline :: rest) offered (.msg msg :: gots) := by
  obtain ⟨hfinished, calls, r, stream, hcalls⟩ := h
  have hrecv := recv_received hline hfits hdecode rest offered
  exact ⟨hfinished.cons msg, [line.length + 1] :: calls, r, stream,
    by simp [recvAll, hrecv, hcalls]⟩

/-- A line over the limit is rejected if a read ends at the limit. -/
theorem Reaches.tooLarge {line rest : List UInt8} (hline : newline ∉ line)
    (hlong : maxMessageSize ≤ line.length) (offered : List ℕ) :
    Reaches decode (line ++ newline :: rest) offered [.tooLarge] := by
  obtain ⟨r, stream, hrecv⟩ := recv_tooLarge hline hlong decode rest offered
  exact ⟨.single (by simp), [[maxMessageSize]], r, stream, by simp [recvAll, hrecv]⟩

/-- A line that fits into the buffer is not rejected as too large if one read delivers it. -/
theorem Reaches.whole {line : List UInt8} (hline : newline ∉ line)
    (hfits : line.length < bufferSize) (decode : List UInt8 → Option T) (rest : List UInt8)
    (offered : List ℕ) :
    ∃ got gots, got ≠ .tooLarge ∧
      Reaches decode (line ++ newline :: rest) offered (got :: gots) := by
  cases hdecode : decode line with
  | some msg =>
      obtain ⟨calls, gots, r, stream, -, hfinished, hcalls⟩ :=
        exists_recvAll decode (fun _ => 1) .new ⟨rest, offered ++ [bufferSize]⟩
      exact ⟨.msg msg, gots, by simp,
        .cons hline hfits hdecode ⟨hfinished, calls, r, stream, hcalls⟩⟩
  | none =>
      obtain ⟨r, hloaded, hrecv⟩ := recv_line decode line rest offered hfits
      have hmem : newline ∈ r.loaded := by simp [hloaded]
      have hmalformed : decode r.line = none := by
        rw [line_eq, hloaded, firstLine_line hline, hdecode]
      rw [inspect, if_pos hmem, hmalformed] at hrecv
      exact ⟨.malformed, [], by simp, .single (by simp), [[line.length + 1]], r,
        ⟨rest, offered ++ [bufferSize]⟩, by simp [recvAll, hrecv]⟩

/-! ## Two sessions on one stream -/

/-- Behind lines that are received, an ambiguous one can go both ways. -/
theorem exists_two_results {line : List UInt8} (after : List UInt8) (hline : newline ∉ line)
    (hlong : maxMessageSize ≤ line.length) (hfits : line.length < bufferSize)
    {before : List (List UInt8)}
    (hbefore : ∀ earlier ∈ before,
      newline ∉ earlier ∧ earlier.length < maxMessageSize ∧ (decode earlier).isSome)
    (offered : List ℕ) :
    ∃ gots gots', gots ≠ gots' ∧
      Reaches decode (unlines newline before ++ (line ++ newline :: after)) offered gots ∧
      Reaches decode (unlines newline before ++ (line ++ newline :: after)) offered gots' := by
  induction before generalizing offered with
  | nil =>
      obtain ⟨got, gots, hgot, hwhole⟩ := Reaches.whole hline hfits decode after offered
      refine ⟨got :: gots, [.tooLarge], ?_, hwhole, .tooLarge hline hlong offered⟩
      intro heq
      exact hgot (List.cons.inj heq).1
  | cons earlier before ih =>
      obtain ⟨hearlier, hshort, hdecode⟩ := hbefore earlier (by simp)
      obtain ⟨msg, hmsg⟩ := Option.isSome_iff_exists.mp hdecode
      have hfits' : earlier.length < bufferSize := hshort.trans (by decide)
      obtain ⟨gots, gots', hne, hgots, hgots'⟩ :=
        ih (fun other hother => hbefore other (List.mem_cons_of_mem _ hother))
          (offered ++ [bufferSize])
      rw [unlines_cons, List.append_assoc, List.cons_append]
      exact ⟨.msg msg :: gots, .msg msg :: gots', fun heq => hne (List.cons.inj heq).2,
        .cons hearlier hfits' hmsg hgots, .cons hearlier hfits' hmsg hgots'⟩

/-- **When the results do not depend on the reads.**  Every way of cutting the bytes leads
to an error or `None`, and all of them give the same results up to there if and only if no
line is reached that is over the limit and fits into the buffer. -/
theorem same_results_iff (decode : List UInt8 → Option T) (bytes : List UInt8) :
    (∀ sizes : ℕ → ℕ, ∃ calls gots, Session decode bytes calls gots ∧
      calls.flatten = (List.range calls.flatten.length).map sizes) ∧
    ((∀ calls calls' gots gots', Session decode bytes calls gots →
      Session decode bytes calls' gots' → gots = gots') ↔ ¬ Ambiguous decode bytes) := by
  constructor
  · intro sizes
    obtain ⟨calls, gots, r, stream, hsizes, hfinished, hcalls⟩ :=
      exists_recvAll decode sizes .new ⟨bytes, []⟩
    exact ⟨calls, gots, ⟨hfinished, r, stream, hcalls⟩, hsizes⟩
  · constructor
    · rintro hsame ⟨before, line, after, rfl, hbefore, hline, hlong, hfits⟩
      obtain ⟨gots, gots', hne, ⟨hfinished, calls, hcalls⟩, hfinished', calls', hcalls'⟩ :=
        exists_two_results after hline hlong hfits hbefore []
      exact hne (hsame calls calls' gots gots' ⟨hfinished, hcalls⟩ ⟨hfinished', hcalls'⟩)
    · rintro hclear calls calls' gots gots' ⟨hfinished, r, stream, hcalls⟩
        ⟨hfinished', r', stream', hcalls'⟩
      exact calls_agree (calls_of_deliver hcalls) (calls_of_deliver hcalls') hclear hfinished
        hfinished'

/-! ## A line that is ambiguous -/

/-- The line `{"Broadcast":{"message":"aaa"}}` with 300 letters instead of three. -/
def longLine : List UInt8 :=
  [123, 34, 66, 114, 111, 97, 100, 99, 97, 115, 116, 34, 58, 123, 34, 109, 101, 115, 115, 97,
    103, 101, 34, 58, 34] ++ List.replicate 300 97 ++ [34, 125, 125]

/-- `serde_json::from_slice` on this line. -/
def decodeLongLine (line : List UInt8) : Option Chat.ClientToServerMsg :=
  if line = longLine then some (.broadcast (String.ofList (List.replicate 300 'a'))) else none

/-- A message of 328 bytes is accepted if it comes in one piece, and rejected as too large
if the first read ends at the limit. -/
theorem long_message_depends_on_reads :
    Session decodeLongLine (longLine ++ [newline]) [[329], [1]]
        [.msg (.broadcast (String.ofList (List.replicate 300 'a'))), .eof] ∧
      Session decodeLongLine (longLine ++ [newline]) [[maxMessageSize]] [.tooLarge] ∧
      ¬ ∀ calls calls' gots gots', Session decodeLongLine (longLine ++ [newline]) calls gots →
        Session decodeLongLine (longLine ++ [newline]) calls' gots' → gots = gots' := by
  have hline : newline ∉ longLine := by decide +kernel
  have hlength : longLine.length = 328 := by decide +kernel
  have haccepted : Session decodeLongLine (longLine ++ [newline]) [[329], [1]]
      [.msg (.broadcast (String.ofList (List.replicate 300 'a'))), .eof] := by
    refine ⟨Finished.cons (.single (by simp)) _, .new, ⟨[], [bufferSize, bufferSize]⟩, ?_⟩
    have hrecv := recv_received hline (by rw [hlength]; decide)
      (show decodeLongLine longLine = some _ from if_pos rfl) [] []
    rw [hlength] at hrecv
    rw [recvAll, hrecv]
    rfl
  have hrejected :
      Session decodeLongLine (longLine ++ [newline]) [[maxMessageSize]] [.tooLarge] := by
    obtain ⟨r, stream, hrecv⟩ :=
      recv_tooLarge hline (by rw [hlength]; decide) decodeLongLine [] []
    refine ⟨.single (by simp), r, stream, ?_⟩
    rw [recvAll, hrecv]
    rfl
  refine ⟨haccepted, hrejected, fun hsame => ?_⟩
  cases hsame _ _ _ _ haccepted hrejected

end RustCourse.Lesson09
