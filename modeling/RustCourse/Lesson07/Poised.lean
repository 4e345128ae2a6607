import RustCourse.Lib.Liveness
import RustCourse.Lesson07.ForkJoin

/-!
# No stage gets stuck

A thread, and `fork_join` as a whole, is a stage in the sense of `Lib/Liveness`: if it cannot
move by itself, it is poised to do something with one of its neighbours.

For `fork_join` this is where a circular wait would be: the distributer can be blocked on a
full line while the gatherer waits for an empty one.  Positions exclude it.  The distributer
deals a row from the first line to the last and the gatherer collects it in the same order
(`LinePosition`).  A full line has been dealt more than was collected from it, and an empty
line that is stuck has had everything collected that it was dealt; counting the rows from
both sides leaves no place for the two lines (`not_blocked`).
-/

namespace RustCourse.Lesson07

open Dataflow Transition

variable {I O L U : Type}

/-! ## One thread -/

namespace Thread

/-- The thread still has the receiver of its input. -/
def holdsReceiver : Thread U → Bool
  | .exiting receiver _ => receiver
  | _ => true

/-- The thread still has the sender of its output. -/
def holdsSender : Thread U → Bool
  | .exiting _ sender => sender
  | _ => true

/-- The thread has dropped both its channel ends. -/
def finished (thread : Thread U) : Bool :=
  !thread.holdsReceiver && !thread.holdsSender

end Thread

section Thread

variable {f : I → Outcome (Option U)}

/-- An end is held until it was dropped. -/
theorem Thread.holds_iff {trace : List ((thread f).State × Exchange I U)} {t : Thread U}
    (hrun : (thread f).Runs trace t) :
    (t.holdsReceiver = true ↔ .hangup ∉ inputs trace) ∧
      (t.holdsSender = true ↔ .eof ∉ outputs trace) := by
  refine hrun.invariantTrace (I := fun trace (t : Thread U) =>
    (t.holdsReceiver = true ↔ .hangup ∉ inputs trace) ∧
      (t.holdsSender = true ↔ .eof ∉ outputs trace)) ?_ ?_
  · simp [thread, holdsReceiver, holdsSender]
  rintro trace t l t' - ⟨hinput, houtput⟩ hstep
  rw [inputs_snoc, outputs_snoc]
  cases hstep <;> simp_all [holdsReceiver, holdsSender]

theorem thread_separate : (thread f).Separate := by
  intro t t' signal o hstep
  cases hstep <;> rfl

/-- Functions that return do not kill the thread. -/
theorem each_lives (hf : ∀ o, ∃ u, f o = .ret u) (xs : List I) : ¬ (each f).dies xs := by
  rintro ⟨x, -, hpanic⟩
  obtain ⟨u, hu⟩ := hf x
  simp [hu] at hpanic

theorem Thread.takesIn_item (hf : ∀ o, ∃ u, f o = .ret u) (o : I) :
    (thread f).TakesIn .waiting (.item o) := by
  obtain ⟨result, hresult⟩ := hf o
  cases result with
  | none => exact ⟨_, .skip hresult⟩
  | some u => exact ⟨_, .produce hresult⟩

/-- **A thread is a stage.** -/
theorem thread_stage (hf : ∀ o, ∃ u, f o = .ret u) :
    Stage (thread f) (each f) fun t => t.finished = true where
  implements := thread_implements f
  lives := each_lives hf
  poised := by
    intro trace t hrun hstuck
    obtain ⟨hinput, houtput⟩ := Thread.holds_iff hrun
    have hinv := thread_invariant hrun
    cases t with
    | waiting =>
        exact .waiting (Thread.takesIn_item hf) ⟨_, .recvFails⟩ (hinput.mp rfl)
          fun _ => hinv.1.symm
    | sending u => exact .sending ⟨_, .send⟩ ⟨_, .sendFails⟩ (houtput.mp rfl)
    | exiting receiver sender =>
        cases receiver with
        | true => exact .leavesInput ⟨_, .dropReceiver⟩ (hinput.mp rfl)
        | false =>
            cases sender with
            | true => exact .leavesOutput ⟨_, .dropSender⟩ (houtput.mp rfl)
            | false =>
                exact .done rfl (by simpa [Thread.holdsReceiver] using hinput)
                  (by simpa [Thread.holdsSender] using houtput)

end Thread

/-! ## Positions in `fork_join` -/

namespace ForkJoin

namespace Distributer

/-- The distributer still has the receiver of its input. -/
def holdsReceiver : Distributer O → Bool
  | .exiting receiver _ => receiver
  | _ => true

/-- How many lines have lost their sender. -/
def dropped : Distributer O → ℕ
  | .exiting _ line => line
  | _ => 0

/-- It has dropped all that it held. -/
def finished (nLines : ℕ) (distributer : Distributer O) : Bool :=
  !distributer.holdsReceiver && decide (nLines ≤ distributer.dropped)

theorem finished_exiting {nLines line : ℕ} (hline : nLines ≤ line) :
    (exiting false line : Distributer O).finished nLines = true :=
  decide_eq_true hline

/-- In its loop the distributer has dealt every item to every line, but the one in its hand. -/
@[simp] def HasDealt (received k dealt : ℕ) : Distributer O → Prop
  | .waiting => dealt = received
  | .sending _ line => dealt + 1 = received + if k < line then 1 else 0
  | .exiting _ _ => True

section

variable {nLines line received k dealt : ℕ} {o : O} {receiver : Bool}

@[simp] theorem holdsReceiver_waiting : (waiting : Distributer O).holdsReceiver = true := rfl

@[simp] theorem holdsReceiver_sending : (sending o line).holdsReceiver = true := rfl

@[simp] theorem holdsReceiver_exiting :
    (exiting receiver line : Distributer O).holdsReceiver = receiver := rfl

@[simp] theorem dropped_waiting : (waiting : Distributer O).dropped = 0 := rfl

@[simp] theorem dropped_sending : (sending o line).dropped = 0 := rfl

@[simp] theorem dropped_exiting : (exiting receiver line : Distributer O).dropped = line := rfl

@[simp] theorem holdsReceiver_sendFrom : (sendFrom nLines o line).holdsReceiver = true := by
  unfold sendFrom
  split <;> rfl

@[simp] theorem dropped_sendFrom : (sendFrom nLines o line).dropped = 0 := by
  unfold sendFrom
  split <;> rfl

private theorem hasDealt_sendFrom (hk : k < nLines) :
    (sendFrom nLines o line).HasDealt received k dealt ↔
      dealt + 1 = received + if k < line then 1 else 0 := by
  unfold sendFrom
  split
  · rfl
  · next hlast =>
      rw [if_pos (by omega)]
      exact Nat.succ_inj.symm

end

end Distributer

namespace Gatherer

/-- The gatherer still has the sender of its output. -/
def holdsSender : Gatherer L U → Bool
  | .exiting sender _ => sender
  | _ => true

/-- How many lines have lost their receiver. -/
def dropped : Gatherer L U → ℕ
  | .exiting _ line => line
  | _ => 0

/-- It has dropped all that it held. -/
def finished (nLines : ℕ) (gatherer : Gatherer L U) : Bool :=
  !gatherer.holdsSender && decide (nLines ≤ gatherer.dropped)

theorem finished_exiting {nLines line : ℕ} (hline : nLines ≤ line) :
    (exiting false line : Gatherer L U).finished nLines = true :=
  decide_eq_true hline

/-- In its loop the gatherer has collected the rows it put out, and the one in its hand. -/
@[simp] def HasCollected (sent k collected : ℕ) : Gatherer L U → Prop
  | .gathering outputs => collected = sent + if k < outputs.length then 1 else 0
  | .sending _ => collected = sent + 1
  | .exiting _ _ => True

section

variable {outputs : List L} {u : U} {sender : Bool} {line : ℕ}

@[simp] theorem holdsSender_gathering :
    (gathering outputs : Gatherer L U).holdsSender = true := rfl

@[simp] theorem holdsSender_sending : (sending u : Gatherer L U).holdsSender = true := rfl

@[simp] theorem holdsSender_exiting :
    (exiting sender line : Gatherer L U).holdsSender = sender := rfl

@[simp] theorem dropped_gathering : (gathering outputs : Gatherer L U).dropped = 0 := rfl

@[simp] theorem dropped_sending : (sending u : Gatherer L U).dropped = 0 := rfl

@[simp] theorem dropped_exiting : (exiting sender line : Gatherer L U).dropped = line := rfl

end

end Gatherer

variable {nLines : ℕ} {Line : Component (O × ℕ) L} {f : O → ℕ → Outcome L}
  {join : List L → Outcome U}

/-! ## Two neighbours in the same row -/

/-- What line `k` was dealt, after `received` items came in. -/
structure JobsPosition (distributer : Distributer O) (received k : ℕ)
    (jobs : List (Signal (O × ℕ))) : Prop where
  ended : .eof ∈ jobs ↔ k < distributer.dropped
  dealt : distributer.HasDealt received k (items jobs).length

/-- What was collected from line `k`, after `sent` items went out. -/
structure ResultsPosition (gatherer : Gatherer L U) (sent k : ℕ) (results : List (Signal L)) :
    Prop where
  hungUp : .hangup ∈ results ↔ k < gatherer.dropped
  collected : gatherer.HasCollected sent k (items results).length

/-- How far line `k` is. -/
structure LinePosition (distributer : Distributer O) (gatherer : Gatherer L U)
    (received sent k : ℕ) (jobs : List (Signal (O × ℕ))) (results : List (Signal L)) : Prop
    extends JobsPosition distributer received k jobs, ResultsPosition gatherer sent k results

/-- Every line is at the end of a run that took it where it is. -/
def LinesAt (lines : Fin nLines → Line.State) (distributer : Distributer O)
    (gatherer : Gatherer L U) (received sent : ℕ) : Prop :=
  ∀ k, ∃ trace, Line.Runs trace (lines k) ∧
    LinePosition distributer gatherer received sent k (inputs trace) (outputs trace)

/-- How far everybody is. -/
structure Positions (ins : List (Signal O)) (outs : List (Signal U)) (s : State O U Line nLines) :
    Prop where
  receiver : s.distributer.holdsReceiver = true ↔ .hangup ∉ ins
  sender : s.gatherer.holdsSender = true ↔ .eof ∉ outs
  dealing : ∀ o line, s.distributer = .sending o line → line < nLines
  gathering : ∀ outputs, s.gatherer = .gathering outputs → outputs.length ≤ nLines
  lines : LinesAt s.lines s.distributer s.gatherer (items ins).length (items outs).length

namespace LinesAt

variable {lines : Fin nLines → Line.State} {d d' : Distributer O} {g g' : Gatherer L U}
  {received received' sent sent' : ℕ} {k : Fin nLines} {line : Line.State}

/-- The distributer went on, and no line moved. -/
theorem of_jobs (h : LinesAt lines d g received sent)
    (hjobs : ∀ (k : Fin nLines) jobs, JobsPosition d received k jobs →
      JobsPosition d' received' k jobs) : LinesAt lines d' g received' sent := by
  intro k
  obtain ⟨trace, hrun, hat⟩ := h k
  exact ⟨trace, hrun, hjobs k _ hat.toJobsPosition, hat.toResultsPosition⟩

/-- The gatherer went on, and no line moved. -/
theorem of_results (h : LinesAt lines d g received sent)
    (hresults : ∀ (k : Fin nLines) results, ResultsPosition g sent k results →
      ResultsPosition g' sent' k results) : LinesAt lines d g' received sent' := by
  intro k
  obtain ⟨trace, hrun, hat⟩ := h k
  exact ⟨trace, hrun, hat.toJobsPosition, hresults k _ hat.toResultsPosition⟩

/-- One line moved. -/
theorem update (h : LinesAt lines d g received sent) {l : Exchange (O × ℕ) L}
    (hstep : Line.step (lines k) l line)
    (hmoved : ∀ jobs results, LinePosition d g received sent k jobs results →
      LinePosition d' g' received sent k (jobs ++ l.1.toList) (results ++ l.2.toList))
    (hothers : ∀ k' ≠ k, ∀ jobs results, LinePosition d g received sent k'.val jobs results →
      LinePosition d' g' received sent k' jobs results) :
    LinesAt (Function.update lines k line) d' g' received sent := by
  intro k'
  obtain ⟨trace, hrun, hat⟩ := h k'
  by_cases hk : k' = k
  · subst hk
    refine ⟨trace ++ [(lines k', l)], ?_, ?_⟩
    · rw [Function.update_self]
      exact hrun.snoc hstep
    · rw [inputs_snoc, outputs_snoc]
      exact hmoved _ _ hat
  · rw [Function.update_of_ne hk]
    exact ⟨trace, hrun, hothers k' hk _ _ hat⟩

/-- The distributer went on with line `k`. -/
theorem deal (h : LinesAt lines d g received sent) {signal : Signal (O × ℕ)}
    (hstep : Line.step (lines k) (some signal, none) line)
    (hmoved : ∀ jobs, JobsPosition d received k jobs →
      JobsPosition d' received k (jobs ++ [signal]))
    (hothers : ∀ k' ≠ k, ∀ jobs, JobsPosition d received k'.val jobs →
      JobsPosition d' received k' jobs) :
    LinesAt (Function.update lines k line) d' g received sent := by
  refine h.update hstep (fun jobs results hat => ?_) fun k' hne jobs results hat => ?_
  · exact ⟨hmoved jobs hat.toJobsPosition, by simpa using hat.toResultsPosition⟩
  · exact ⟨hothers k' hne jobs hat.toJobsPosition, hat.toResultsPosition⟩

/-- The gatherer went on with line `k`. -/
theorem collect (h : LinesAt lines d g received sent) {signal : Signal L}
    (hstep : Line.step (lines k) (none, some signal) line)
    (hmoved : ∀ results, ResultsPosition g sent k results →
      ResultsPosition g' sent k (results ++ [signal]))
    (hothers : ∀ k' ≠ k, ∀ results, ResultsPosition g sent k'.val results →
      ResultsPosition g' sent k' results) :
    LinesAt (Function.update lines k line) d g' received sent := by
  refine h.update hstep (fun jobs results hat => ?_) fun k' hne jobs results hat => ?_
  · exact ⟨by simpa using hat.toJobsPosition, hmoved results hat.toResultsPosition⟩
  · exact ⟨hat.toJobsPosition, hothers k' hne results hat.toResultsPosition⟩

end LinesAt

/-- The item in the hand of the distributer is for a line. -/
theorem Distributer.lt_of_sendFrom {o o' : O} {line line' : ℕ}
    (h : sendFrom nLines o line = .sending o' line') : line' < nLines := by
  unfold sendFrom at h
  split at h
  · next hlast =>
      cases h
      exact hlast
  · cases h

theorem JobsPosition.sendFrom {o : O} {received line : ℕ} {k : Fin nLines}
    {jobs : List (Signal (O × ℕ))} (hopen : .eof ∉ jobs)
    (hdealt : (items jobs).length + 1 = received + if k < line then 1 else 0) :
    JobsPosition (Distributer.sendFrom nLines o line) received k jobs :=
  ⟨by simpa using hopen, (Distributer.hasDealt_sendFrom k.isLt).mpr hdealt⟩

theorem Positions.step {ins : List (Signal O)} {outs : List (Signal U)}
    {s s' : State O U Line nLines} {l : Exchange O U} (h : Positions ins outs s)
    (hstep : Step Line join s l s') :
    Positions (ins ++ l.1.toList) (outs ++ l.2.toList) s' := by
  obtain ⟨hreceiver, hsender, hdealing, hgathering, hlines⟩ := h
  cases hstep with
  -- the distributer moves: the positions on the side of the jobs change
  | @receive o lines g =>
      have hlines' : LinesAt lines (.sendFrom nLines o 0) g ((items ins).length + 1)
          (items outs).length := hlines.of_jobs fun k jobs hat =>
        .sendFrom (by simpa using hat.ended) (by simpa using hat.dealt)
      exact ⟨by simpa using hreceiver, by simpa using hsender,
        fun o line => Distributer.lt_of_sendFrom, hgathering, by simpa using hlines'⟩
  | @recvFails lines g =>
      have hlines' : LinesAt lines (.exiting true 0) g (items ins).length (items outs).length :=
        hlines.of_jobs fun k jobs hat => ⟨by simpa using hat.ended, trivial⟩
      exact ⟨by simpa using hreceiver, by simpa using hsender, by simp, hgathering,
        by simpa using hlines'⟩
  | @dropReceiver line lines g =>
      have hlines' : LinesAt lines (.exiting false line) g (items ins).length
          (items outs).length :=
        hlines.of_jobs fun k jobs hat => ⟨by simpa using hat.ended, trivial⟩
      exact ⟨by simp, by simpa using hsender, by simp, hgathering, by simpa using hlines'⟩
  | @distribute o lines g k line hline =>
      have hlines' : LinesAt (Function.update lines k line) (.sendFrom nLines o (k + 1)) g
          (items ins).length (items outs).length := by
        refine hlines.deal hline (fun jobs hat => .sendFrom ?_ ?_)
          fun k' hne jobs hat => .sendFrom ?_ ?_
        · simpa using hat.ended
        · simpa using hat.dealt
        · simpa using hat.ended
        · have hlt : k'.val < k + 1 ↔ k'.val < k := by omega
          simpa [hlt] using hat.dealt
      exact ⟨by simpa using hreceiver, by simpa using hsender,
        fun o line => Distributer.lt_of_sendFrom, hgathering, by simpa using hlines'⟩
  | @distributeFails o lines g k line hline =>
      have hlines' : LinesAt (Function.update lines k line) (.exiting true 0) g
          (items ins).length (items outs).length :=
        hlines.deal hline (fun jobs hat => ⟨by simpa using hat.ended, trivial⟩)
          fun k' _ jobs hat => ⟨by simpa using hat.ended, trivial⟩
      exact ⟨by simpa using hreceiver, by simpa using hsender, by simp, hgathering,
        by simpa using hlines'⟩
  -- the lines before `k` have been told the end, and now `k`
  | @dropLineSender receiver lines g k line hline =>
      have hlines' : LinesAt (Function.update lines k line) (.exiting receiver (k + 1)) g
          (items ins).length (items outs).length := by
        refine hlines.deal hline (fun jobs hat => ⟨by simp, trivial⟩)
          fun k' hne jobs hat => ⟨?_, trivial⟩
        have hlt : k'.val < k + 1 ↔ k'.val < k := by omega
        simpa [hlt] using hat.ended
      exact ⟨by simpa using hreceiver, by simpa using hsender, by simp, hgathering,
        by simpa using hlines'⟩
  -- a worker moves between the two sides
  | @work d lines g k line hline =>
      have hlines' : LinesAt (Function.update lines k line) d g (items ins).length
          (items outs).length :=
        hlines.update hline (fun jobs results hat => by simpa using hat) fun _ _ _ _ hat => hat
      exact ⟨by simpa using hreceiver, by simpa using hsender, hdealing, hgathering,
        by simpa using hlines'⟩
  -- the gatherer moves: the positions on the side of the results change
  | @gather d lines outputs output k line hlength hline =>
      have hlines' : LinesAt (Function.update lines k line) d
          (.gathering (outputs ++ [output]) : Gatherer L U) (items ins).length
          (items outs).length := by
        refine hlines.collect hline (fun results hat => ⟨?_, ?_⟩)
          fun k' hne results hat => ⟨?_, ?_⟩
        · simpa using hat.hungUp
        · simpa [hlength] using hat.collected
        · simpa using hat.hungUp
        · have hlt : k'.val < outputs.length + 1 ↔ k'.val < outputs.length := by omega
          simpa [hlt] using hat.collected
      have hrow : outputs.length + 1 ≤ nLines := hlength ▸ k.isLt
      exact ⟨by simpa using hreceiver, by simpa using hsender, hdealing, by simpa using hrow,
        by simpa using hlines'⟩
  | @gatherFails d lines outputs k line hlength hline =>
      have hlines' : LinesAt (Function.update lines k line) d (.exiting true 0 : Gatherer L U)
          (items ins).length (items outs).length :=
        hlines.collect hline (fun results hat => ⟨by simpa using hat.hungUp, trivial⟩)
          fun k' _ results hat => ⟨by simpa using hat.hungUp, trivial⟩
      exact ⟨by simpa using hreceiver, by simpa using hsender, hdealing, by simp,
        by simpa using hlines'⟩
  | @join d lines outputs u hlength hjoin =>
      have hlines' : LinesAt lines d (.sending u : Gatherer L U) (items ins).length
          (items outs).length :=
        hlines.of_results fun k results hat =>
          ⟨by simpa using hat.hungUp, by simpa [hlength] using hat.collected⟩
      exact ⟨by simpa using hreceiver, by simpa using hsender, hdealing, by simp,
        by simpa using hlines'⟩
  | @joinPanics d lines =>
      have hlines' : LinesAt lines d (.exiting true 0 : Gatherer L U) (items ins).length
          (items outs).length :=
        hlines.of_results fun k results hat => ⟨by simpa using hat.hungUp, trivial⟩
      exact ⟨by simpa using hreceiver, by simpa using hsender, hdealing, by simp,
        by simpa using hlines'⟩
  | @send d lines u =>
      have hlines' : LinesAt lines d (.gathering [] : Gatherer L U) (items ins).length
          ((items outs).length + 1) :=
        hlines.of_results fun k results hat =>
          ⟨by simpa using hat.hungUp, by simpa using hat.collected⟩
      exact ⟨by simpa using hreceiver, by simpa using hsender, hdealing, by simp,
        by simpa using hlines'⟩
  | @sendFails d lines u =>
      have hlines' : LinesAt lines d (.exiting true 0 : Gatherer L U) (items ins).length
          (items outs).length :=
        hlines.of_results fun k results hat => ⟨by simpa using hat.hungUp, trivial⟩
      exact ⟨by simpa using hreceiver, by simpa using hsender, hdealing, by simp,
        by simpa using hlines'⟩
  | @dropSender d line lines =>
      have hlines' : LinesAt lines d (.exiting false line : Gatherer L U) (items ins).length
          (items outs).length :=
        hlines.of_results fun k results hat => ⟨by simpa using hat.hungUp, trivial⟩
      exact ⟨by simpa using hreceiver, by simp, hdealing, by simp, by simpa using hlines'⟩
  | @dropLineReceiver d lines sender k line hline =>
      have hlines' : LinesAt (Function.update lines k line) d
          (.exiting sender (k + 1) : Gatherer L U) (items ins).length (items outs).length := by
        refine hlines.collect hline (fun results hat => ⟨by simp, trivial⟩)
          fun k' hne results hat => ⟨?_, trivial⟩
        have hlt : k'.val < k + 1 ↔ k'.val < k := by omega
        simpa [hlt] using hat.hungUp
      exact ⟨by simpa using hreceiver, by simpa using hsender, hdealing, by simp,
        by simpa using hlines'⟩

private theorem exists_positions {trace : List (State O U Line nLines × Exchange O U)}
    {s : State O U Line nLines} (hrun : (ForkJoin.lines Line nLines join).Runs trace s) :
    Positions (inputs trace) (outputs trace) s := by
  refine hrun.invariantTrace (I := fun trace s =>
    Positions (inputs trace) (outputs trace) s) ?_ ?_
  · have hlines : LinesAt (fun _ : Fin nLines => Line.init) (.waiting : Distributer O)
        (.gathering [] : Gatherer L U) 0 0 :=
      fun k => ⟨[], .nil, ⟨by simp, by simp⟩, by simp, by simp⟩
    exact ⟨by simp [ForkJoin.lines], by simp [ForkJoin.lines], by simp [ForkJoin.lines],
      by simp [ForkJoin.lines], hlines⟩
  · intro trace s l s' _ h hstep
    simpa using h.step hstep

/-! ## Nobody can move -/

section Stuck

variable {d : Distributer O} {g : Gatherer L U} {lines : Fin nLines → Line.State} {o : O}
  {acc : List L} {k : Fin nLines}

theorem stuck_line (hstuck : (ForkJoin.lines Line nLines join).Stuck ⟨d, lines, g⟩)
    (k : Fin nLines) : Line.Stuck (lines k) :=
  fun _ hstep => hstuck _ (.work hstep)

private theorem not_takesIn_of_sending
    (hstuck : (ForkJoin.lines Line nLines join).Stuck ⟨.sending o k, lines, g⟩) :
    ¬ Line.TakesIn (lines k) (.item (o, k.val)) ∧ ¬ Line.TakesIn (lines k) .hangup :=
  ⟨fun ⟨_, hstep⟩ => hstuck _ (.distribute hstep),
    fun ⟨_, hstep⟩ => hstuck _ (.distributeFails hstep)⟩

private theorem not_accepts_of_sending (hseparate : Line.Separate)
    (hstuck : (ForkJoin.lines Line nLines join).Stuck ⟨.sending o k, lines, g⟩) :
    ¬ Line.Accepts (lines k) (o, k.val) := by
  obtain ⟨hitem, hhangup⟩ := not_takesIn_of_sending hstuck
  rintro (htakes | htakes | ⟨y, line, hgive⟩)
  · exact hitem htakes
  · exact hhangup htakes
  · cases hseparate hgive

private theorem not_putsOut_of_gathering (hk : acc.length = k.val)
    (hstuck : (ForkJoin.lines Line nLines join).Stuck ⟨d, lines, .gathering acc⟩) :
    ¬ (∃ y, Line.PutsOut (lines k) (.item y)) ∧ ¬ Line.PutsOut (lines k) .eof :=
  ⟨fun ⟨_, _, hstep⟩ => hstuck _ (.gather hk hstep),
    fun ⟨_, hstep⟩ => hstuck _ (.gatherFails hk hstep)⟩

/-- **No circular wait.**  A line that is full and one that is empty are not both waited for. -/
theorem not_blocked {received sent i j : ℕ} {jobs jobs' : List (Signal (O × ℕ))}
    {results results' : List (Signal L)}
    (hfull : LinePosition (.sending o i) (.gathering acc : Gatherer L U) received sent i
      jobs results)
    (hempty : LinePosition (.sending o i) (.gathering acc : Gatherer L U) received sent j
      jobs' results')
    (hj : acc.length = j) (hmore : (items results).length < (items jobs).length)
    (hall : (items results').length = (items jobs').length) : False := by
  have hdealt := hfull.dealt
  have hdealt' := hempty.dealt
  have hcollected := hfull.collected
  have hcollected' := hempty.collected
  simp only [Distributer.HasDealt, Gatherer.HasCollected, hj, lt_irrefl, if_false] at *
  -- the lines in front of the distributer are a job ahead, those in front of the gatherer a result
  split at hdealt' <;> split at hcollected <;> omega

end Stuck

/-! ## `fork_join` is a stage -/

section Stage

variable {DoneLine : Line.State → Prop} {trace : List (Line.State × Exchange (O × ℕ) L)}
  {line : Line.State} {d : Distributer O} {g : Gatherer L U} {lines : Fin nLines → Line.State}
  {ins : List (Signal O)} {outs : List (Signal U)} {acc : List L}

/-- A loop over a function that returns puts out one item for every item. -/
theorem length_emitted {f : I → Outcome (Option U)} (hf : ∀ x, ∃ u, f x = .ret (some u))
    (xs : List I) : (emitted f xs).length = xs.length := by
  induction xs with
  | nil => rfl
  | cons x rest ih =>
      obtain ⟨u, hu⟩ := hf x
      simp [emitted, hu, ih]

theorem exists_job_result (hf : ∀ x k, ∃ y, f x k = .ret y) (job : O × ℕ) :
    ∃ y, (f job.1 job.2).map some = .ret (some y) := by
  obtain ⟨y, hy⟩ := hf job.1 job.2
  exact ⟨y, by rw [hy, Outcome.map_ret]⟩

private theorem exists_joined (hf : ∀ x k, ∃ y, f x k = .ret y)
    (hjoin : ∀ ys, ∃ u, join ys = .ret u) (x : O) :
    ∃ u, joined f nLines join x = .ret (some u) := by
  choose result hresult using hf x
  have hcalls : (List.range nLines).map (f x) = ((List.range nLines).map result).map .ret := by
    simp [hresult]
  obtain ⟨u, hu⟩ := hjoin ((List.range nLines).map result)
  exact ⟨u, by rw [joined, hcalls, Outcome.all_map_ret, Outcome.bind, hu, Outcome.map_ret]⟩

variable (hline : Responsive Line (each fun job => (f job.1 job.2).map some) DoneLine)
  (hf : ∀ x k, ∃ y, f x k = .ret y)

include hline hf

/-- A line that holds a result was dealt more than was collected from it. -/
theorem length_lt_of_putsOut (hrun : Line.Runs trace line)
    (hputs : ∃ y, Line.PutsOut line (.item y)) :
    (items (outputs trace)).length < (items (inputs trace)).length := by
  obtain ⟨y, line', hstep⟩ := hputs
  have hle := (hline.implements.items (hrun.snoc hstep)).length_le
  rw [show (each _).out _ = emitted _ _ from rfl, length_emitted (exists_job_result hf)] at hle
  exact Nat.lt_of_succ_le (by simpa using hle)

/-- The line that the gatherer waits for in vain is open, and has put out all it was dealt. -/
theorem of_gathering (hstuck : (ForkJoin.lines Line nLines join).Stuck ⟨d, lines, .gathering acc⟩)
    {k : Fin nLines} (hk : acc.length = k.val) (hrun : Line.Runs trace (lines k))
    (hopen : .hangup ∉ outputs trace) :
    .eof ∉ inputs trace ∧ (items (outputs trace)).length = (items (inputs trace)).length := by
  obtain ⟨hitem, heof⟩ := not_putsOut_of_gathering hk hstuck
  rcases hline.feeds hrun (stuck_line hstuck k) hopen with hputs | ⟨-, hputs, -⟩ | ⟨hopen, hall, -⟩
  · exact absurd hputs hitem
  · exact absurd hputs heof
  · refine ⟨hopen, ?_⟩
    rw [hall, show (each _).out _ = emitted _ _ from rfl, length_emitted (exists_job_result hf)]

/-- The distributer cannot stand in front of a line while the gatherer waits for another. -/
theorem not_sending_of_gathering (hseparate : Line.Separate) {o : O} {i : ℕ}
    (hstuck : (ForkJoin.lines Line nLines join).Stuck ⟨.sending o i, lines, .gathering acc⟩)
    (hpositions : Positions ins outs ⟨.sending o i, lines, .gathering acc⟩)
    (hacc : acc.length < nLines) : False := by
  obtain ⟨emptied, hempty, hposition⟩ := hpositions.lines ⟨acc.length, hacc⟩
  have hi : i < nLines := hpositions.dealing o i rfl
  obtain ⟨filled, hfull, hposition'⟩ := hpositions.lines ⟨i, hi⟩
  have hall := (of_gathering hline hf hstuck (k := ⟨acc.length, hacc⟩) rfl hempty
    (by simp [hposition.hungUp])).2
  have hdealing := not_accepts_of_sending (k := ⟨i, hi⟩) hseparate hstuck
  have hstuckLine : Line.Stuck (lines ⟨i, hi⟩) := stuck_line hstuck ⟨i, hi⟩
  rcases hline.feeds hfull hstuckLine (by simp [hposition'.hungUp]) with hputs | ⟨heof, -⟩ |
    ⟨-, -, haccepts⟩
  · exact not_blocked hposition' hposition rfl (length_lt_of_putsOut hline hf hfull hputs) hall
  · simp [hposition'.ended] at heof
  · exact hdealing (haccepts _)

/-- While both wait, everything received was put out. -/
theorem delivered_of_waiting (hjoin : ∀ ys, ∃ u, join ys = .ret u) (hlines : 1 ≤ nLines)
    {trace : List ((ForkJoin.lines Line nLines join).State × Exchange O U)}
    (hrun : (ForkJoin.lines Line nLines join).Runs trace ⟨.waiting, lines, .gathering acc⟩)
    (hstuck : (ForkJoin.lines Line nLines join).Stuck ⟨.waiting, lines, .gathering acc⟩)
    (hacc : acc.length < nLines) :
    items (outputs trace) = emitted (joined f nLines join) (items (inputs trace)) := by
  obtain ⟨emptied, hempty, hposition⟩ := (exists_positions hrun).lines ⟨acc.length, hacc⟩
  have hall := (of_gathering hline hf hstuck (k := ⟨acc.length, hacc⟩) rfl hempty
    (by simp [hposition.hungUp])).2
  have hdealt := hposition.dealt
  have hcollected := hposition.collected
  simp only [Distributer.HasDealt, Gatherer.HasCollected, lt_irrefl, if_false] at hdealt hcollected
  refine ((lines_implements hline.implements hlines).items hrun).eq_of_length ?_
  calc (items (outputs trace)).length
      _ = (items (outputs emptied)).length := hcollected.symm
      _ = (items (inputs emptied)).length := hall
      _ = (items (inputs trace)).length := hdealt
      _ = _ := (length_emitted (exists_joined hf hjoin) _).symm

omit hf

/-- A gatherer that stopped by itself has put out everything. -/
theorem delivered_of_exiting (hlines : 1 ≤ nLines) {sender : Bool} {line : ℕ}
    {trace : List ((ForkJoin.lines Line nLines join).State × Exchange O U)}
    (hrun : (ForkJoin.lines Line nLines join).Runs trace ⟨d, lines, .exiting sender line⟩)
    (hheld : .hangup ∉ outputs trace) :
    items (outputs trace) = emitted (joined f nLines join) (items (inputs trace)) := by
  obtain ⟨jobs, results, -, -, -, hcause⟩ := exists_invariant hline.implements hlines hrun
  rcases hcause with hhungUp | ⟨hall, -⟩
  · exact absurd (mem_of_closing hhungUp) hheld
  · exact hall

/-- A gatherer that has dropped its sender drops all its receivers. -/
theorem le_dropped_of_gatherer {line : ℕ}
    (hstuck : (ForkJoin.lines Line nLines join).Stuck ⟨d, lines, .exiting false line⟩)
    (hpositions : Positions ins outs ⟨d, lines, .exiting false line⟩) : nLines ≤ line := by
  by_contra hlt
  rw [not_le] at hlt
  obtain ⟨trace, hrun, hposition⟩ := hpositions.lines ⟨line, hlt⟩
  obtain ⟨_, hstep⟩ := hline.hangable hrun (by simp [hposition.hungUp])
  exact hstuck _ (.dropLineReceiver (k := ⟨line, hlt⟩) hstep)

/-- A distributer that is leaving drops all its senders. -/
theorem le_dropped_of_distributer {receiver : Bool} {line : ℕ}
    (hstuck : (ForkJoin.lines Line nLines join).Stuck ⟨.exiting receiver line, lines, g⟩)
    (hpositions : Positions ins outs ⟨.exiting receiver line, lines, g⟩) : nLines ≤ line := by
  by_contra hlt
  rw [not_le] at hlt
  obtain ⟨trace, hrun, hposition⟩ := hpositions.lines ⟨line, hlt⟩
  obtain ⟨_, hstep⟩ := hline.endable hrun (by simp [hposition.ended])
  exact hstuck _ (.dropLineSender (k := ⟨line, hlt⟩) hstep)

/-- The distributer does not stand in front of a line whose results nobody wants. -/
theorem not_sending_of_dropped {o : O} {i line : ℕ}
    (hstuck : (ForkJoin.lines Line nLines join).Stuck ⟨.sending o i, lines, .exiting false line⟩)
    (hpositions : Positions ins outs ⟨.sending o i, lines, .exiting false line⟩)
    (hdropped : nLines ≤ line) : False := by
  have hi : i < nLines := hpositions.dealing o i rfl
  obtain ⟨trace, hrun, hposition⟩ := hpositions.lines ⟨i, hi⟩
  have hclosed : .hangup ∈ outputs trace := hposition.hungUp.mpr (hi.trans_le hdropped)
  obtain ⟨hitem, hhangup⟩ := not_takesIn_of_sending (k := ⟨i, hi⟩) hstuck
  rcases hline.stops hrun (stuck_line hstuck ⟨i, hi⟩) hclosed with ⟨heof, -⟩ | ⟨-, htakes⟩
  · simp [hposition.ended] at heof
  · exact (htakes _).elim hitem hhangup

/-- A line that both have left is done. -/
theorem doneLine_of_dropped {line line' : ℕ} {receiver sender : Bool}
    (hstuck : (ForkJoin.lines Line nLines join).Stuck
      ⟨.exiting receiver line, lines, .exiting sender line'⟩)
    (hpositions : Positions ins outs ⟨.exiting receiver line, lines, .exiting sender line'⟩)
    (hline' : nLines ≤ line) (hline'' : nLines ≤ line') (k : Fin nLines) : DoneLine (lines k) := by
  obtain ⟨trace, hrun, hposition⟩ := hpositions.lines k
  have hclosed : .hangup ∈ outputs trace := hposition.hungUp.mpr (k.isLt.trans_le hline'')
  have heof : .eof ∈ inputs trace := hposition.ended.mpr (k.isLt.trans_le hline')
  rcases hline.stops hrun (stuck_line hstuck k) hclosed with ⟨-, hdone⟩ | ⟨hopen, -⟩
  · exact hdone
  · exact absurd heof hopen

omit hline

/-! ## The stage -/

/-- The distributer, the gatherer and the lines have dropped all their channel ends. -/
def Finished (DoneLine : Line.State → Prop) (s : State O U Line nLines) : Prop :=
  s.distributer.finished nLines = true ∧ s.gatherer.finished nLines = true ∧
    ∀ k, DoneLine (s.lines k)

/-- **`fork_join` is a stage.** -/
theorem lines_stage (hline : Responsive Line (each fun job => (f job.1 job.2).map some) DoneLine)
    (hseparate : Line.Separate) (hf : ∀ x k, ∃ y, f x k = .ret y)
    (hjoin : ∀ ys, ∃ u, join ys = .ret u) (hlines : 1 ≤ nLines) :
    Stage (ForkJoin.lines Line nLines join) (each (joined f nLines join)) (Finished DoneLine) where
  implements := lines_implements hline.implements hlines
  lives := each_lives fun x =>
    let ⟨u, hu⟩ := exists_joined hf hjoin x
    ⟨some u, hu⟩
  poised := by
    rintro trace ⟨d, lines, g⟩ hrun hstuck
    have hpositions := exists_positions hrun
    have hreceives : d = .waiting → .hangup ∉ inputs trace := by
      rintro rfl
      exact hpositions.receiver.mp rfl
    cases g with
    | sending u => exact .sending ⟨_, .send⟩ ⟨_, .sendFails⟩ (hpositions.sender.mp rfl)
    | gathering acc =>
        -- the gatherer waits for a line, since a complete row would be joined
        by_cases hacc : acc.length < nLines
        · cases d with
          | waiting =>
              exact .waiting (fun o => ⟨_, .receive⟩) ⟨_, .recvFails⟩ (hreceives rfl)
                fun _ => delivered_of_waiting hline hf hjoin hlines hrun hstuck hacc
          | sending o i =>
              exact (not_sending_of_gathering hline hf hseparate hstuck hpositions hacc).elim
          | exiting receiver line =>
              -- the line the gatherer waits for has lost its sender
              have hdropped := le_dropped_of_distributer hline hstuck hpositions
              obtain ⟨emptied, hempty, hposition⟩ := hpositions.lines ⟨acc.length, hacc⟩
              have hopen := (of_gathering hline hf hstuck (k := ⟨acc.length, hacc⟩) rfl hempty
                (by simp [hposition.hungUp])).1
              exact absurd (hposition.ended.mpr (hacc.trans_le hdropped)) hopen
        · have hlength : acc.length = nLines :=
            le_antisymm (hpositions.gathering acc rfl) (not_lt.mp hacc)
          obtain ⟨u, hu⟩ := hjoin acc
          exact (hstuck _ (.join hlength hu)).elim
    | exiting sender line =>
        cases sender with
        | true => exact .leavesOutput ⟨_, .dropSender⟩ (hpositions.sender.mp rfl)
        | false =>
            have hdropped := le_dropped_of_gatherer hline hstuck hpositions
            -- the gatherer is gone, which the distributer learns from a line
            cases d with
            | waiting =>
                exact .waiting (fun o => ⟨_, .receive⟩) ⟨_, .recvFails⟩ (hreceives rfl)
                  fun hheld => delivered_of_exiting hline hlines hrun hheld
            | sending o i => exact (not_sending_of_dropped hline hstuck hpositions hdropped).elim
            | exiting receiver line' =>
                have hdropped' := le_dropped_of_distributer hline hstuck hpositions
                cases receiver with
                | true => exact .leavesInput ⟨_, .dropReceiver⟩ (hpositions.receiver.mp rfl)
                | false =>
                    refine .done ⟨Distributer.finished_exiting hdropped',
                      Gatherer.finished_exiting hdropped,
                      doneLine_of_dropped hline hstuck hpositions hdropped' hdropped⟩ ?_ ?_
                    · by_contra hheld
                      cases hpositions.receiver.mpr hheld
                    · by_contra hheld
                      cases hpositions.sender.mpr hheld

end Stage

end ForkJoin

end RustCourse.Lesson07
