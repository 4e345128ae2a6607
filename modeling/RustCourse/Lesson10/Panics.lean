import RustCourse.Lesson10.Reader
import RustCourse.Lesson10.Steps
import RustCourse.Lesson10Parallel.Steps

/-!
# What makes the lesson 10 reader panic

`recv` asserts that there is room behind what is loaded.  There is none when the buffer is
full of bytes without a newline, so a client panics its handler with 1024 bytes that do not
end a line.  `never_panics_iff` says that this is the only way, and that the client needs
no luck with the reads: whether some `recv` panics depends on the bytes alone.

A handler that panics skips the removal of its username, in lesson 10 as in lesson
10_parallel, which has the same reader.

## Strategy

A line of 1024 bytes is a property of the text (`Overflows`), and a `recv` takes lines off its
front until it meets one.  For the condition to be enough for a panic, the calls are run until
the line is the first one (`exists_calls`), and then its bytes fill the buffer however they are
cut (`panicked_of_overflows`).  For the other direction a panicked call is traced back to the
line it stood in (`overflows_of_panicked`).
-/

namespace RustCourse.Lesson10

open Codec Lines MessageReader

variable {T : Type*} {decode : List UInt8 → Option T}

/-! ## Lines that do not fit -/

/-- Behind lines that can be read, the buffer can be filled without a newline. -/
def Overflows (decode : List UInt8 → Option T) (text : List UInt8) : Prop :=
  ∃ before rest, text = unlines newline before ++ rest ∧
    (∀ line ∈ before, newline ∉ line ∧ (decode line).isSome) ∧
    bufferSize ≤ (firstLine newline rest).length

/-- One more line that can be read changes nothing. -/
theorem Overflows.cons {line text : List UInt8} (h : Overflows decode text)
    (hline : newline ∉ line) (hdecode : (decode line).isSome) :
    Overflows decode (line ++ newline :: text) := by
  obtain ⟨before, rest, rfl, hbefore, hfull⟩ := h
  refine ⟨line :: before, rest, by simp, ?_, hfull⟩
  intro other hother
  rcases List.mem_cons.mp hother with rfl | hother
  · exact ⟨hline, hdecode⟩
  · exact hbefore other hother

/-- Only bytes that fill the buffer panic a `recv`. -/
theorem overflows_of_panicked {text rest : List UInt8} {gots : List (Outcome T)}
    (h : Calls (Answers decode) text gots rest) (hpanicked : .panicked ∈ gots) :
    Overflows decode text := by
  induction h with
  | nil => cases hpanicked
  | @cons text _ _ got gots hanswer _ ih =>
      cases hanswer with
      | panicked hfull => exact ⟨[], text, rfl, by simp, hfull⟩
      | msg hmem hdecode =>
          have hafter := ih (by simpa using hpanicked)
          rw [firstLine_append_afterLine hmem]
          exact hafter.cons (sep_notMem_firstLine _ _) (by simp [hdecode])
      | malformed | eof | dropped => exact ih (by simpa using hpanicked)

/-- A `recv` that neither panics nor is dropped has found a line that fits. -/
theorem length_lt_of_recv {reads : List Delivery} {r r' : MessageReader}
    {unread unread' : List UInt8} {got : Outcome T}
    (h : recv decode deliver reads r unread = some (got, r', unread')) (hgot : got ≠ .panicked)
    (hkept : got ≠ .dropped) :
    (firstLine newline (r.loaded ++ unread)).length < bufferSize := by
  induction reads generalizing r unread with
  | nil =>
      obtain ⟨result, hresult, heq⟩ := Option.map_eq_some_iff.mp h
      cases heq
      unfold inspect at hresult
      split at hresult
      · next hline =>
          -- the line ends in the buffer, which it does not fill
          rw [firstLine_append hline]
          exact (length_firstLine_lt hline).trans_le r.fits
      · split at hresult <;> cases hresult
        exact absurd rfl hgot
  | cons choice rest ih =>
      cases hinspect : r.inspect decode with
      | some result => simp [recv, hinspect] at h
      | none =>
          obtain ⟨hline, hroom⟩ := reads_of_inspect hinspect
          cases choice with
          | bytes n =>
              by_cases hleft : 0 < unread.length
              · have hread : 0 < r.free ∧ 0 < unread.length := ⟨hroom, hleft⟩
                simp only [recv, hinspect, deliver, hread, and_self, dif_pos] at h
                have hshort := ih h
                rwa [load, List.append_assoc, List.take_append_drop] at hshort
              -- nothing is left to read, and there is room behind what is loaded
              · rw [List.length_eq_zero_iff.mp (Nat.eq_zero_of_not_pos hleft), List.append_nil,
                  firstLine_of_notMem hline]
                unfold free at hroom
                omega
          | drop =>
              simp only [recv, hinspect, deliver] at h
              split at h <;> cases h
              exact absurd rfl hkept

/-- A `recv` is dropped only while it waits. -/
theorem drop_mem_of_dropped {reads : List Delivery} {r r' : MessageReader}
    {unread unread' : List UInt8}
    (h : recv decode deliver reads r unread = some (.dropped, r', unread')) : .drop ∈ reads := by
  induction reads generalizing r unread with
  | nil =>
      obtain ⟨⟨got, r₁⟩, hresult, heq⟩ := Option.map_eq_some_iff.mp h
      obtain rfl : got = .dropped := congrArg Prod.fst heq
      simp only [inspect] at hresult
      (repeat' split at hresult) <;> cases hresult
  | cons choice rest ih =>
      cases choice with
      | drop => simp
      | bytes n =>
          cases hinspect : r.inspect decode with
          | some result => simp [recv, hinspect] at h
          | none =>
              by_cases hread : 0 < r.free ∧ 0 < unread.length
              · simp only [recv, hinspect, deliver, hread, and_self, dif_pos] at h
                exact List.mem_cons_of_mem _ (ih h)
              · simp only [recv, hinspect, deliver, hread, dif_neg, not_false_eq_true] at h
                split at h <;> cases h

private theorem first_of_recvAll {calls : List (List Delivery)} {gots : List (Outcome T)}
    {r r' : MessageReader} {unread unread' : List UInt8}
    (h : recvAll decode deliver calls r unread = some (gots, r', unread'))
    (hlength : 0 < gots.length) :
    ∃ reads calls' got gots' r₁ unread₁, gots = got :: gots' ∧
      recv decode deliver reads r unread = some (got, r₁, unread₁) ∧
      recvAll decode deliver calls' r₁ unread₁ = some (gots', r', unread') := by
  cases calls with
  | nil =>
      cases h
      simp at hlength
  | cons reads calls =>
      obtain ⟨⟨got, r₁, unread₁⟩, hfirst, hcalls⟩ := Option.bind_eq_some_iff.mp h
      obtain ⟨⟨gots', last⟩, hrest, heq⟩ := Option.map_eq_some_iff.mp hcalls
      cases heq
      exact ⟨reads, calls, got, gots', r₁, unread₁, rfl, hfirst, hrest⟩

/-- **The buffer overflows however the bytes are delivered**, as soon as there are more
calls than lines in front. -/
theorem panicked_of_overflows {before : List (List UInt8)} {rest : List UInt8}
    (hbefore : ∀ line ∈ before, newline ∉ line ∧ (decode line).isSome)
    (hfull : bufferSize ≤ (firstLine newline rest).length) {calls : List (List Delivery)}
    {gots : List (Outcome T)} {r r' : MessageReader} {unread unread' : List UInt8}
    (htext : r.loaded ++ unread = unlines newline before ++ rest)
    (h : recvAll decode deliver calls r unread = some (gots, r', unread'))
    (hkept : .dropped ∉ gots) (hlong : before.length < gots.length) : .panicked ∈ gots := by
  induction before generalizing calls gots r unread with
  | nil =>
      obtain ⟨reads, calls', got, gots, r₁, unread₁, rfl, hfirst, -⟩ := first_of_recvAll h hlong
      have hpanicked : got = .panicked := by
        -- a call that returns anything else has seen a line that fits
        by_contra hgot
        have hshort := length_lt_of_recv hfirst hgot fun hdropped => hkept (by simp [hdropped])
        rw [htext, unlines_nil, List.nil_append] at hshort
        omega
      exact List.mem_cons.mpr (.inl hpanicked.symm)
  | cons line before ih =>
      obtain ⟨hline, hdecode⟩ := hbefore line (by simp)
      obtain ⟨msg, hmsg⟩ := Option.isSome_iff_exists.mp hdecode
      rw [unlines_cons, List.append_assoc, List.cons_append] at htext
      obtain ⟨reads, calls', got, gots, r₁, unread₁, rfl, hfirst, hrest⟩ :=
        first_of_recvAll h (Nat.zero_lt_of_lt hlong)
      have hanswer := answers_of_recv hfirst
      rw [htext] at hanswer
      generalize htext' : r₁.loaded ++ unread₁ = text' at hanswer
      cases hanswer with
      | panicked => simp
      | dropped => exact absurd (by simp) hkept
      | malformed _ hnone =>
          rw [firstLine_line hline, hmsg] at hnone
          cases hnone
      | eof hmem => exact absurd (by simp) hmem
      -- a line that can be read is one call
      | msg =>
          rw [afterLine_line hline] at htext'
          have hlater := ih (fun other hother => hbefore other (List.mem_cons_of_mem _ hother))
            htext' hrest (fun hdropped => hkept (List.mem_cons_of_mem _ hdropped))
            (by simpa using hlong)
          exact List.mem_cons_of_mem _ hlater

/-- Any number of calls can be made without a drop. -/
theorem exists_calls (decode : List UInt8 → Option T) (n : ℕ) (r : MessageReader)
    (unread : List UInt8) :
    ∃ calls gots last, recvAll decode deliver calls r unread = some (gots, last) ∧
      .dropped ∉ gots ∧ gots.length = n := by
  induction n generalizing r unread with
  | zero => exact ⟨[], [], (r, unread), rfl, by simp, rfl⟩
  | succ n ih =>
      obtain ⟨k, hk⟩ : ∃ k, (recv decode deliver ((List.range k).map fun _ => .bytes 1) r
          unread).isSome := exists_recv _ r unread
      obtain ⟨⟨got, r', unread'⟩, hrecv⟩ := Option.isSome_iff_exists.mp hk
      obtain ⟨calls, gots, last, hcalls, hkept, hlength⟩ := ih r' unread'
      have hgot : got ≠ .dropped := by
        rintro rfl
        simpa using drop_mem_of_dropped hrecv
      refine ⟨(List.range k).map (fun _ => .bytes 1) :: calls, got :: gots, last, ?_, ?_, ?_⟩
      · rw [recvAll, hrecv, Option.bind_some]
        simp only [hcalls, Option.map_some]
      · simp [hkept, Ne.symm hgot]
      · simp [hlength]

private theorem exists_panic {text : List UInt8} (h : Overflows decode text) :
    ∃ calls gots r unread,
      recvAll decode deliver calls .new text = some (gots, r, unread) ∧ .panicked ∈ gots := by
  obtain ⟨before, rest, rfl, hbefore, hfull⟩ := h
  obtain ⟨calls, gots, ⟨r, unread⟩, hcalls, hkept, hlength⟩ :=
    exists_calls decode (before.length + 1) .new (unlines newline before ++ rest)
  exact ⟨calls, gots, r, unread, hcalls,
    panicked_of_overflows hbefore hfull rfl hcalls hkept (by omega)⟩

/-! ## Every session -/

/-- **When a client can panic its handler.**  No sequence of `recv` calls on a stream
panics, whatever the reads hand out and whichever calls are dropped, if and only if behind
lines that can be read there never are 1024 bytes without a newline. -/
theorem never_panics_iff (decode : List UInt8 → Option T) (text : List UInt8) :
    (∀ calls gots r unread, recvAll decode deliver calls .new text = some (gots, r, unread) →
      .panicked ∉ gots) ↔ ¬ Overflows decode text := by
  constructor
  · intro hnever hoverflows
    obtain ⟨calls, gots, r, unread, hcalls, hpanicked⟩ := exists_panic hoverflows
    exact hnever calls gots r unread hcalls hpanicked
  · intro hfits calls gots r unread hcalls hpanicked
    exact hfits (overflows_of_panicked (calls_of_recvAll hcalls) hpanicked)

/-- The line `{"Join":{"name":"a"}}`. -/
def joinLine : List UInt8 :=
  [123, 34, 74, 111, 105, 110, 34, 58, 123, 34, 110, 97, 109, 101, 34, 58, 34, 97, 34, 125, 125]

/-- `serde_json::from_slice` on this line. -/
def decodeJoin (line : List UInt8) : Option Chat.ClientToServerMsg :=
  if line = joinLine then some (.join "a") else none

/-- A client joins and then sends the letter "a" 1024 times.  Its `recv` panics, which ends
its handler, and its name stays in the table. -/
theorem long_line_panics_handler :
    (¬ ∀ calls gots r unread,
      recvAll decodeJoin deliver calls .new (joinLine ++ newline :: List.replicate 1024 97) =
        some (gots, r, unread) → .panicked ∉ gots) ∧
    (∃ trace s, Transition.Run (Transition.Fires (step 1)) Server.init trace s ∧
      trace.map Prod.snd = [.accept 0, .recv 0 (.msg (.join "a")) [], .wrote 0 true,
        .recv 0 .panics [("a", 0)]] ∧
      (s.task 0).phase = .ended ∧ s.clients.lookup "a" = some 0) ∧
    ∃ trace s, Transition.Run (Transition.Fires (Lesson10Parallel.step 1))
        Lesson10Parallel.Server.init trace s ∧
      trace.map Prod.snd = [.accept 0] ++ Lesson10Parallel.joins 0 "a" ++ [.recv 0 .panics] ∧
      s.phase 0 = .ended ∧ s.clients.lookup "a" = some 0 := by
  refine ⟨fun hnever => ?_, ?_, ?_⟩
  · have hnewline : newline ∉ List.replicate 1024 (97 : UInt8) := by
      rw [List.mem_replicate]
      decide
    have hfull : bufferSize ≤ (firstLine newline (List.replicate 1024 97)).length := by
      rw [firstLine_of_notMem hnewline, List.length_replicate, bufferSize]
    have hrest : Overflows decodeJoin (List.replicate 1024 97) := ⟨[], _, rfl, by simp, hfull⟩
    have hjoined : Overflows decodeJoin (joinLine ++ newline :: List.replicate 1024 97) :=
      hrest.cons (by decide) (by decide)
    obtain ⟨calls, gots, r, unread, hcalls, hpanicked⟩ := exists_panic hjoined
    exact hnever calls gots r unread hcalls hpanicked
  · obtain ⟨trace, s, hrun, hp⟩ := Transition.exists_run_of_replay (step 1) Server.init
      [.accept 0, .recv 0 (.msg (.join "a")) [], .wrote 0 true, .recv 0 .panics [("a", 0)]]
      (fun r => decide (r.1.map Prod.snd = [.accept 0, .recv 0 (.msg (.join "a")) [],
        .wrote 0 true, .recv 0 .panics [("a", 0)]] ∧
        (r.2.task 0).phase = .ended ∧ r.2.clients.lookup "a" = some 0))
      (by decide +kernel)
    exact ⟨trace, s, hrun, of_decide_eq_true hp⟩
  · obtain ⟨trace, s, hrun, hp⟩ := Transition.exists_run_of_replay (Lesson10Parallel.step 1)
      Lesson10Parallel.Server.init
      ([.accept 0] ++ Lesson10Parallel.joins 0 "a" ++ [.recv 0 .panics])
      (fun r => decide (r.1.map Prod.snd =
          [.accept 0] ++ Lesson10Parallel.joins 0 "a" ++ [.recv 0 .panics] ∧
        r.2.phase 0 = .ended ∧ r.2.clients.lookup "a" = some 0))
      (by decide +kernel)
    exact ⟨trace, s, hrun, of_decide_eq_true hp⟩

end RustCourse.Lesson10
