import RustCourse.Lesson07.Close
import RustCourse.Lib.Hangup

/-!
# Pipelines without a reader

What happens when `output_rx` is dropped while the senders go on?  A thread whose send fails
leaves its loop and drops the receiver of the channel in front of it, so the send of the
thread before it fails, and so on up to `input_tx`.  A pipeline that was fed only items that
its stages discard never gets there, and a pipeline in which nothing was lost has not got
there yet (`Loses`); but any item that passes all stages can bring it about (`Chokes`).

## Strategy

One direction is an invariant.  A pipeline that has lost nothing keeps its input open, in every
run (`configure_loses`), so one that is fed with discarded items goes on consuming.  The other
direction builds a run: an item that passes all stages is sent through, each thread fails to
send its result, and the hang-up goes from the end to the beginning (`configure_chokes`).
-/

namespace RustCourse.Lesson07

open Dataflow Transition

variable {I O L U : Type}

/-! ## What the loops lose -/

/-- A thread out of its loop has lost something, or its input ended, or it panicked. -/
def Thread.Unread (f : I → Outcome (Option U)) (ins : List (Signal I)) (outs : List (Signal U)) :
    Thread U → Prop
  | .exiting _ _ => Lost (each f) ins outs
  | _ => True

theorem Thread.Unread.step {f : I → Outcome (Option U)} {ins : List (Signal I)}
    {outs : List (Signal U)} {t t' : Thread U} {l : Exchange I U} (h : Unread f ins outs t)
    (hinv : Invariant f ins outs t) (hitems : items outs <+: emitted f (items ins))
    (hstep : Step f t l t') : Unread f (ins ++ l.1.toList) (outs ++ l.2.toList) t' := by
  cases hstep with
  | produce | skip | send => trivial
  | panics hf =>
      intro _ hlives
      exact absurd (by simp [each, panics_snoc, hf]) hlives
  | recvFails =>
      obtain ⟨-, -, -, hhungUp, -⟩ := hinv
      intro hopen
      exact absurd (by simpa using hhungUp) hopen
  | @sendFails u =>
      -- the item of the failed send is put out nowhere
      obtain ⟨hflow, -⟩ := hinv
      intro _ _ hall
      simp [each, hflow] at hall
  | dropReceiver => exact h.more hitems (by simp) (by simp) (by simp)
  | dropSender => exact h.more hitems (by simp) (by simp) (by simp)

theorem thread_loses (f : I → Outcome (Option U)) : (thread f).Loses (each f) := by
  intro trace t hrun hhungUp
  have hunread : Thread.Unread f (inputs trace) (outputs trace) t := by
    refine hrun.invariantTrace (I := fun trace t =>
      Thread.Unread f (inputs trace) (outputs trace) t) trivial ?_
    intro trace t l t' hrun h hstep
    rw [inputs_snoc, outputs_snoc]
    exact h.step (thread_invariant hrun) ((thread_implements f).items hrun) hstep
  have hinv := thread_invariant hrun
  cases t with
  | waiting | sending => exact absurd hhungUp hinv.2.2.2.1
  | exiting => exact hunread

namespace ForkJoin

variable {nLines : ℕ} {Line : Component (O × ℕ) L} {f : O → ℕ → Outcome L}
  {join : List L → Outcome U}

/-- A gatherer out of its loop has lost something, or the input ended, or something
panicked. -/
def Unread (h : O → Outcome (Option U)) (ins : List (Signal O)) (outs : List (Signal U)) :
    Gatherer L U → Prop
  | .exiting _ _ => Lost (each h) ins outs
  | _ => True

theorem Unread.more {h : O → Outcome (Option U)} {ins ins' : List (Signal O)}
    {outs : List (Signal U)} {g : Gatherer L U} (hunread : Unread h ins outs g)
    (hitems : items outs <+: emitted h (items ins)) (hmore : items ins <+: items ins')
    (hended : Ended ins → Ended ins') : Unread h ins' outs g := by
  cases g with
  | gathering | sending => trivial
  | exiting => exact Lost.more hunread hitems hmore hended rfl

/-- A gatherer that is now out of its loop, though its send did not fail, has lost
nothing. -/
theorem Unread.of_gathered {h : O → Outcome (Option U)} {ins : List (Signal O)}
    {outs : List (Signal U)} {results : Fin nLines → List (Signal L)} {sender : Bool} {line : ℕ}
    (hg : Gathered h join ins outs results (.exiting sender line)) (hhungUp : ¬ HungUp outs) :
    Unread h ins outs (.exiting sender line : Gatherer L U) := by
  intro hopen hlives _
  obtain ⟨-, hended | hpanics⟩ := hg.2.resolve_left hhungUp
  · exact hopen hended
  · exact hlives hpanics

variable (hline : Implements Line (each fun job => (f job.1 job.2).map some)) (hlines : 1 ≤ nLines)

include hline hlines

theorem Unread.step {ins : List (Signal O)} {outs : List (Signal U)}
    {jobs : Fin nLines → List (Signal (O × ℕ))} {results : Fin nLines → List (Signal L)}
    {s s' : State O U Line nLines} {l : Exchange O U}
    (h : Unread (joined f nLines join) ins outs s.gatherer)
    (hinv : Invariant f join ins outs s jobs results)
    (hitems : items outs <+: emitted (joined f nLines join) (items ins))
    (hstep : Step Line join s l s') :
    Unread (joined f nLines join) (ins ++ l.1.toList) (outs ++ l.2.toList) s'.gatherer := by
  obtain ⟨jobs', results', -, -, hg'⟩ := hinv.step hline hlines hstep
  obtain ⟨hruns, hd, hg⟩ := hinv
  cases hstep with
  | receive | distribute | distributeFails | dropReceiver | dropLineSender | work =>
      simpa using h.more hitems (by simp) (by simp)
  | recvFails =>
      simpa using h.more hitems (by simp) fun hended => by simpa using hended.not_hungUp
  | gather | join | send => trivial
  | gatherFails | joinPanics => exact .of_gathered hg' (by simpa using hg.2.1)
  | @sendFails d lines u =>
      obtain ⟨-, -, -, rows, hrows, hjoined, hcolumns⟩ := hg
      -- the joined item is part of what is expected, and is put out nowhere
      have hdelivered := (delivered hline hlines hruns hd hrows hjoined hcolumns).length_le
      intro _ _ hall
      simp only [each, Option.toList_none, Option.toList_some, List.append_nil,
        items_hangup] at hall
      rw [← hall, List.length_append, List.length_singleton] at hdelivered
      omega
  | dropSender => exact Lost.more h hitems (by simp) (by simp) (by simp)
  | dropLineReceiver => exact Lost.more h hitems (by simp) (by simp) (by simp)

theorem unread {trace : List (State O U Line nLines × Exchange O U)}
    {s : State O U Line nLines} (hrun : (ForkJoin.lines Line nLines join).Runs trace s) :
    Unread (joined f nLines join) (inputs trace) (outputs trace) s.gatherer := by
  refine hrun.invariantTrace (I := fun trace s =>
    Unread (joined f nLines join) (inputs trace) (outputs trace) s.gatherer) ?_ ?_
  · simp [ForkJoin.lines, Unread]
  · intro trace s l s' hrun h hstep
    obtain ⟨jobs, results, hinv⟩ := exists_invariant (f := f) hline hlines hrun
    have hitems := (lines_implements hline hlines).items hrun
    simpa using h.step hline hlines hinv hitems hstep

theorem lines_loses :
    (ForkJoin.lines Line nLines join).Loses (each (joined f nLines join)) := by
  intro trace s hrun hhungUp
  obtain ⟨jobs, results, -, hd, -⟩ := exists_invariant (f := f) hline hlines hrun
  have hunread := unread hline hlines hrun
  revert hd
  cases s.distributer with
  | waiting => exact fun hd => absurd hhungUp hd.2.1
  | sending => exact fun hd => absurd hhungUp hd.2.2.1
  | exiting =>
      rintro ⟨dealt, hdealt, ⟨hended, -⟩ | ⟨⟨sender, line, hgone⟩, -⟩ | ⟨xs, hpanics, hxs⟩⟩
      · exact absurd hhungUp hended.not_hungUp
      · rwa [hgone] at hunread
      · intro _ hlives
        exact absurd (hpanics.mono ((hxs ⟨0, hlines⟩).trans (hdealt.received _))) hlives

end ForkJoin

/-! ## How a stage comes to hang up -/

section Thread

variable {f : I → Outcome (Option U)} {x : I} {u : U}

theorem thread_handles (hf : f x = .ret (some u)) : (thread f).Handles x u := by
  have htaken : (thread f).Passes .waiting [.item x] [] (.sending u) :=
    .takes (Thread.Step.produce hf)
  exact htaken.append (.puts Thread.Step.send)

/-- The thread takes one item more; its send fails, and it leaves. -/
theorem thread_chokes (hf : f x = .ret (some u)) :
    ∃ t, (thread f).Passes .waiting (List.replicate 1 (.item x) ++ [.hangup]) [.hangup] t := by
  have htaken : (thread f).Passes .waiting [.item x] [] (.sending u) :=
    .takes (Thread.Step.produce hf)
  have hfailed : (thread f).Passes (.sending u) [] [.hangup] (.exiting true true) :=
    .puts Thread.Step.sendFails
  exact ⟨.exiting false true, htaken.append (hfailed.append (.takes Thread.Step.dropReceiver))⟩

end Thread

namespace ForkJoin

section Lines

variable {nLines : ℕ} {Line : Component (O × ℕ) L}

theorem Distributer.sendFrom_of_lt {line : ℕ} (h : line < nLines) (o : O) :
    sendFrom nLines o line = .sending o line :=
  if_pos h

theorem Distributer.sendFrom_self (o : O) : sendFrom nLines o nLines = .waiting :=
  if_neg (lt_irrefl _)

section Passes

variable (join : List L → Outcome U) (d : Distributer O) (lines next : Fin nLines → Line.State)
  (g : Gatherer L U)

/-- One line works on its own. -/
theorem passes_work {k : Fin nLines} {line : Line.State}
    (h : Line.Passes (lines k) [] [] line) :
    (ForkJoin.lines Line nLines join).Passes ⟨d, lines, g⟩ [] []
      ⟨d, Function.update lines k line, g⟩ := by
  generalize hin : ([] : List (Signal (O × ℕ))) = ins at h
  generalize hout : ([] : List (Signal L)) = outs at h
  induction h with
  | nil => simpa using Component.Passes.nil
  | @snoc line line' ins outs i o hbefore hstep ih =>
      obtain ⟨rfl, hi⟩ := List.append_eq_nil_iff.mp hin.symm
      obtain ⟨rfl, ho⟩ := List.append_eq_nil_iff.mp hout.symm
      obtain rfl : i = none := by simpa using hi
      obtain rfl : o = none := by simpa using ho
      have hline : Line.step (Function.update lines k line k) (none, none) line' := by
        rwa [Function.update_self]
      have hnext := (ih rfl rfl).silent (Step.work hline)
      rwa [Function.update_idem] at hnext

/-- An item is dealt to one line. -/
theorem passes_distribute {k : Fin nLines} {o : O} {line : Line.State}
    (h : Line.step (lines k) (some (.item (o, k.val)), none) line) :
    (ForkJoin.lines Line nLines join).Passes ⟨.sendFrom nLines o k, lines, g⟩ [] []
      ⟨.sendFrom nLines o (k + 1), Function.update lines k line, g⟩ := by
  rw [Distributer.sendFrom_of_lt k.isLt]
  exact Component.Passes.nil.silent (Step.distribute h)

/-- An item is dealt to all lines. -/
theorem passes_distribute_all {o : O}
    (h : ∀ k, Line.step (lines k) (some (.item (o, k.val)), none) (next k)) :
    (ForkJoin.lines Line nLines join).Passes ⟨.sendFrom nLines o 0, lines, g⟩ [] []
      ⟨.waiting, next, g⟩ := by
  let dealt (j : ℕ) (k : Fin nLines) : Line.State := if k.val < j then next k else lines k
  let state (j : ℕ) : State O U Line nLines := ⟨.sendFrom nLines o j, dealt j, g⟩
  have hround : ∀ j < nLines,
      (ForkJoin.lines Line nLines join).Passes (state j) [] [] (state (j + 1)) := by
    intro j hj
    have hstep : Line.step (dealt j ⟨j, hj⟩) (some (.item (o, j)), none) (next ⟨j, hj⟩) := by
      simpa [dealt] using h ⟨j, hj⟩
    have hnext : Function.update (dealt j) ⟨j, hj⟩ (next ⟨j, hj⟩) = dealt (j + 1) := by
      funext k
      by_cases hk : k = ⟨j, hj⟩
      · simp [dealt, hk]
      · have hne : k.val ≠ j := fun heq => hk (Fin.ext heq)
        simp [dealt, hk, show k.val < j + 1 ↔ k.val < j by omega]
    have hdealt := passes_distribute join (dealt j) g hstep
    rwa [hnext] at hdealt
  have hall := Component.Passes.iterate (C := ForkJoin.lines Line nLines join) hround
  simpa [state, dealt, Distributer.sendFrom_self] using hall

end Passes

/-- What the distributer, line `k` and the gatherer do with an item, one after the other. -/
def LineHandles (Line : Component (O × ℕ) L) (o : O) (k : ℕ) (y : L) : Prop :=
  ∃ full ready, Line.step Line.init (some (.item (o, k)), none) full ∧
    Line.Passes full [] [] ready ∧ Line.step ready (none, some (.item y)) Line.init

/-- A line whose receiver was dropped takes an item, and then no other one. -/
def LineChokes (Line : Component (O × ℕ) L) (o : O) (k : ℕ) : Prop :=
  ∃ mute full gone left, Line.step Line.init (none, some .hangup) mute ∧
    Line.step mute (some (.item (o, k)), none) full ∧ Line.Passes full [] [] gone ∧
    Line.step gone (some .hangup, none) left

variable (join : List L → Outcome U) {o : O} {results : ℕ → L} {u : U}

/-- One item goes through one line. -/
theorem passes_line {outputs : List L} {k : ℕ} {y : L} (hk : k < nLines)
    (houtputs : outputs.length = k) (hline : LineHandles Line o k y) :
    (ForkJoin.lines Line nLines join).Passes
      ⟨.sendFrom nLines o k, fun _ => Line.init, .gathering outputs⟩ [] []
      ⟨.sendFrom nLines o (k + 1), fun _ => Line.init, .gathering (outputs ++ [y])⟩ := by
  obtain ⟨full, ready, hstores, hworks, hputs⟩ := hline
  have hdealt := passes_distribute join (fun _ => Line.init) (.gathering outputs) (k := ⟨k, hk⟩)
    hstores
  have hworked := passes_work join (.sendFrom nLines o (k + 1))
    (Function.update (fun _ => Line.init) ⟨k, hk⟩ full) (.gathering outputs) (k := ⟨k, hk⟩)
    (by rwa [Function.update_self])
  rw [Function.update_idem] at hworked
  have hgathered := (hdealt.append hworked).silent (Step.gather (k := ⟨k, hk⟩) houtputs
    (by rwa [Function.update_self]))
  rwa [Function.update_idem, Function.update_eq_self] at hgathered

/-- An item goes through all lines, and its results are joined. -/
theorem passes_join (hlines : ∀ k < nLines, LineHandles Line o k (results k))
    (hjoin : join ((List.range nLines).map results) = .ret u) :
    (ForkJoin.lines Line nLines join).Passes ⟨.waiting, fun _ => Line.init, .gathering []⟩
      [.item o] [] ⟨.waiting, fun _ => Line.init, .sending u⟩ := by
  let state (k : ℕ) : State O U Line nLines :=
    ⟨.sendFrom nLines o k, fun _ => Line.init, .gathering ((List.range k).map results)⟩
  have hround : ∀ k < nLines,
      (ForkJoin.lines Line nLines join).Passes (state k) [] [] (state (k + 1)) := by
    intro k hk
    have houtputs : ((List.range k).map results).length = k := by simp
    have hline := passes_line join hk houtputs (hlines k hk)
    simpa [state, List.range_succ] using hline
  have hreceived : (ForkJoin.lines Line nLines join).Passes
      ⟨.waiting, fun _ => Line.init, .gathering []⟩ [.item o] [] (state 0) := .takes Step.receive
  have hall := hreceived.append (Component.Passes.iterate hround)
  simp only [state, Distributer.sendFrom_self] at hall
  exact hall.silent (Step.join (by simp) hjoin)

theorem lines_handles (hlines : ∀ k < nLines, LineHandles Line o k (results k))
    (hjoin : join ((List.range nLines).map results) = .ret u) :
    (ForkJoin.lines Line nLines join).Handles o u :=
  (passes_join join hlines hjoin).append (.puts Step.send)

/-- The gatherer cannot send what it has joined and drops the receiver of the first line; with
the next item the worker of this line leaves; with the one after that the distributer does. -/
theorem lines_chokes (hn : 1 ≤ nLines) (hlines : ∀ k < nLines, LineHandles Line o k (results k))
    (hline : LineChokes Line o 0) (hjoin : join ((List.range nLines).map results) = .ret u) :
    ∃ t, (ForkJoin.lines Line nLines join).Passes (ForkJoin.lines Line nLines join).init
      (List.replicate 3 (.item o) ++ [.hangup]) [.hangup] t := by
  obtain ⟨mute, stuffed, gone, left, hdrops, hstores, hleaves, hfails⟩ := hline
  -- the other lines only store the second item
  have hfills : ∀ k : Fin nLines, ∃ full,
      Line.step Line.init (some (.item (o, k.val)), none) full := by
    intro k
    obtain ⟨full, -, hfull, -⟩ := hlines k k.isLt
    exact ⟨full, hfull⟩
  choose full hfull using hfills
  let first : Fin nLines := ⟨0, hn⟩
  have hmute : (ForkJoin.lines Line nLines join).Passes
      ⟨.waiting, fun _ => Line.init, .gathering []⟩ [.item o] [.hangup]
      ⟨.waiting, Function.update (fun _ => Line.init) first mute, .exiting true 1⟩ := by
    have hfailed := (passes_join join hlines hjoin).append (.puts Step.sendFails)
    exact hfailed.silent (Step.dropLineReceiver (k := first) hdrops)
  have hgone : (ForkJoin.lines Line nLines join).Passes
      ⟨.waiting, Function.update (fun _ => Line.init) first mute, .exiting true 1⟩ [.item o] []
      ⟨.waiting, Function.update full first gone, .exiting true 1⟩ := by
    have hreceived : (ForkJoin.lines Line nLines join).Passes
        ⟨.waiting, Function.update (fun _ => Line.init) first mute, .exiting true 1⟩ [.item o] []
        ⟨.sendFrom nLines o 0, Function.update (fun _ => Line.init) first mute,
          .exiting true 1⟩ := .takes Step.receive
    have hfilled : ∀ k, Line.step (Function.update (fun _ => Line.init) first mute k)
        (some (.item (o, k.val)), none) (Function.update full first stuffed k) := by
      intro k
      by_cases hk : k = first
      · simpa [hk] using hstores
      · simpa [hk] using hfull k
    have hdealt := passes_distribute_all join _ _ (.exiting true 1) hfilled
    have hworked := passes_work join .waiting (Function.update full first stuffed)
      (.exiting true 1) (k := first) (by rwa [Function.update_self])
    rw [Function.update_idem] at hworked
    exact (hreceived.append hdealt).append hworked
  have hleft : (ForkJoin.lines Line nLines join).Passes
      ⟨.waiting, Function.update full first gone, .exiting true 1⟩ [.item o, .hangup] []
      ⟨.exiting false 0, Function.update full first left, .exiting true 1⟩ := by
    have hreceived : (ForkJoin.lines Line nLines join).Passes
        ⟨.waiting, Function.update full first gone, .exiting true 1⟩ [.item o] []
        ⟨.sendFrom nLines o 0, Function.update full first gone, .exiting true 1⟩ :=
      .takes Step.receive
    rw [Distributer.sendFrom_of_lt hn] at hreceived
    have hfailed := hreceived.silent (Step.distributeFails (k := first)
      (by rwa [Function.update_self]))
    rw [Function.update_idem] at hfailed
    exact hfailed.append (.takes Step.dropReceiver)
  exact ⟨_, (hmute.append hgone).append hleft⟩

end Lines

section Worker

variable {queueSize : ℕ} {f : O → ℕ → Outcome L} {o : O} {k : ℕ} {y : L}

theorem worker_lineHandles (hqueue : 1 ≤ queueSize) (hy : f o k = .ret y) :
    LineHandles (worker queueSize f) o k y := by
  have hreceived : (worker queueSize f).Passes
      (⟨[(o, k)], true, true⟩, .waiting, ⟨[], true, true⟩) [] []
      (⟨[], true, true⟩, .sending y, ⟨[], true, true⟩) :=
    Component.Passes.nil.silent (.both .recv (.left (.produce (by simp [hy]))))
  have hsent := hreceived.silent (.right (.both .send (.send hqueue)))
  exact ⟨_, _, .left (.send hqueue), hsent, .right (.right .recv)⟩

theorem worker_lineChokes (hqueue : 1 ≤ queueSize) (hy : f o k = .ret y) :
    LineChokes (worker queueSize f) o k := by
  have hreceived : (worker queueSize f).Passes
      (⟨[(o, k)], true, true⟩, .waiting, ⟨[], true, false⟩) [] []
      (⟨[], true, true⟩, .sending y, ⟨[], true, false⟩) :=
    Component.Passes.nil.silent (.both .recv (.left (.produce (by simp [hy]))))
  have hfailed := hreceived.silent (.right (.both .sendFails .sendFails))
  have hdropped := hfailed.silent (.both .dropReceiver (.left .dropReceiver))
  exact ⟨_, _, _, _, .right (.right .dropReceiver), .left (.send hqueue), hdropped,
    .left .sendFails⟩

end Worker

end ForkJoin

/-! ## Pipelines -/

namespace Stages

variable (stages : Stages I O)

theorem configure_queueSize {A : Type} (builder : FactorioBuilder A I) :
    (stages.configure builder).queueSize = builder.queueSize := by
  induction stages with
  | none => rfl
  | map _ _ ih | filter _ _ ih | filterMap _ _ ih | forkJoin _ _ _ _ _ ih => exact ih

theorem semantics_append (xs ys : List I) :
    stages.semantics (xs ++ ys) = stages.semantics xs ++ stages.semantics ys := by
  induction stages with
  | none => rfl
  | map _ _ ih | filter _ _ ih | filterMap _ _ ih | forkJoin _ _ _ _ _ ih => simp [semantics, ih]

theorem semantics_nil : stages.semantics [] = [] := by
  induction stages with
  | none => rfl
  | map _ _ ih | filter _ _ ih | filterMap _ _ ih | forkJoin _ _ _ _ _ ih => simp [semantics, ih]

/-- Stages make one item of an item, or discard it. -/
theorem semantics_single (x : I) : ∃ y : Option O, stages.semantics [x] = y.toList := by
  induction stages with
  | none => exact ⟨some x, rfl⟩
  | map _ f ih =>
      obtain ⟨y, hy⟩ := ih
      exact ⟨y.map f, by simp [semantics, hy, Option.toList_map]⟩
  | filter _ f ih =>
      obtain ⟨y, hy⟩ := ih
      exact ⟨y.filter f, by simp [semantics, hy, Option.toList_filter]⟩
  | filterMap _ f ih =>
      obtain ⟨y, hy⟩ := ih
      exact ⟨y.bind f, by
        simp [semantics, hy, Option.toList_bind, List.filterMap_eq_flatMap_toList,
          Function.comp_def]⟩
  | forkJoin _ workerFunction nLines join _ ih =>
      obtain ⟨y, hy⟩ := ih
      exact ⟨y.map fun o => join ((List.range nLines).map (workerFunction o)),
        by simp [semantics, hy, Option.toList_map]⟩

theorem semantics_eq_nil (h : ∀ x, stages.semantics [x] = []) (xs : List I) :
    stages.semantics xs = [] := by
  induction xs with
  | nil => exact stages.semantics_nil
  | cons x rest ih => rw [← List.singleton_append, semantics_append, h, ih, List.append_nil]

variable {stages}

/-- A stage behind stages that let an item through and choke on it does so, too, with what it
makes of the item. -/
theorem chokes_each {C : Component I O} {T : Component O U} {next : Stages I U} {queueSize : ℕ}
    {g : O → Option U} {x : I} {u : U}
    (h : ∀ y, stages.semantics [x] = [y] → C.Handles x y ∧ C.Chokes x)
    (hT : ∀ y u, g y = some u → (T.seq (syncChannel U queueSize)).Handles y u ∧
      (T.seq (syncChannel U queueSize)).Chokes y)
    (hnext : ∀ xs, next.semantics xs = (stages.semantics xs).filterMap g)
    (hu : next.semantics [x] = [u]) :
    (C.seq (T.seq (syncChannel U queueSize))).Handles x u ∧
      (C.seq (T.seq (syncChannel U queueSize))).Chokes x := by
  obtain ⟨y, hy⟩ := stages.semantics_single x
  rw [hnext, hy] at hu
  cases y with
  | none => simp at hu
  | some y =>
      obtain ⟨hhandles, hchokes⟩ := h y hy
      obtain ⟨hhandles', hchokes'⟩ := hT y u (by cases hg : g y <;> simp_all)
      exact ⟨hhandles.seq hhandles', .seq hhandles hchokes hchokes'⟩

theorem thread_unit {f : O → Outcome (Option U)} {queueSize : ℕ} (hqueue : 1 ≤ queueSize) {y : O}
    {u : U} (hf : f y = .ret (some u)) :
    ((thread f).seq (syncChannel U queueSize)).Handles y u ∧
      ((thread f).seq (syncChannel U queueSize)).Chokes y :=
  have ⟨_, hchokes⟩ := thread_chokes hf
  ⟨(thread_handles hf).seq (syncChannel_handles hqueue u), .channel hchokes queueSize⟩

theorem lines_unit {f : O → ℕ → L} {nLines queueSize : ℕ} {join : List L → U}
    (hqueue : 1 ≤ queueSize) (hlines : 1 ≤ nLines) {y : O} {u : U}
    (hu : join ((List.range nLines).map (f y)) = u) :
    ((ForkJoin.lines (ForkJoin.worker queueSize fun o line => .ret (f o line)) nLines
        fun outputs => .ret (join outputs)).seq (syncChannel U queueSize)).Handles y u ∧
      ((ForkJoin.lines (ForkJoin.worker queueSize fun o line => .ret (f o line)) nLines
        fun outputs => .ret (join outputs)).seq (syncChannel U queueSize)).Chokes y := by
  have hline : ∀ k < nLines, ForkJoin.LineHandles
      (ForkJoin.worker queueSize fun o line => .ret (f o line)) y k (f y k) :=
    fun k _ => ForkJoin.worker_lineHandles hqueue rfl
  have hjoin : Outcome.ret (join ((List.range nLines).map (f y))) = .ret u := by rw [hu]
  obtain ⟨t, hchokes⟩ := ForkJoin.lines_chokes (fun outputs => .ret (join outputs)) hlines hline
    (ForkJoin.worker_lineChokes hqueue rfl) hjoin
  exact ⟨(ForkJoin.lines_handles _ hline hjoin).seq (syncChannel_handles hqueue u),
    .channel hchokes queueSize⟩

/-- **Pipelines choke** on every item that passes their stages. -/
theorem configure_chokes (stages : Stages I O) {queueSize : ℕ} (hqueue : 1 ≤ queueSize) {x : I}
    {y : O} (h : stages.semantics [x] = [y]) :
    (stages.configure (.new I queueSize)).pipeline.Handles x y ∧
      (stages.configure (.new I queueSize)).pipeline.Chokes x := by
  have hsize {M : Type} (stages : Stages I M) :
      1 ≤ (stages.configure (.new I queueSize)).queueSize := by
    rwa [configure_queueSize]
  -- stage by stage: what a stage does with one item it does behind the others
  induction stages with
  | none =>
      obtain rfl : x = y := by simpa [semantics] using h
      obtain ⟨hhandles, hchokes⟩ := thread_unit (f := fun t => .ret (some t)) (y := x) hqueue rfl
      exact ⟨(syncChannel_handles hqueue x).seq hhandles,
        .seq (syncChannel_handles hqueue x) (syncChannel_chokes queueSize x) hchokes⟩
  | map stages f ih =>
      exact chokes_each (fun y => ih)
        (fun o u hu => thread_unit (hsize stages) (congrArg Outcome.ret hu))
        (stages.semantics_map f) h
  | filter stages f ih =>
      exact chokes_each (fun y => ih)
        (fun o u hu => thread_unit (hsize stages) (congrArg Outcome.ret hu))
        (stages.semantics_filter f) h
  | filterMap stages f ih =>
      exact chokes_each (fun y => ih)
        (fun o u hu => thread_unit (hsize stages) (congrArg Outcome.ret hu))
        (fun xs => rfl) h
  | forkJoin stages workerFunction nLines join hlines ih =>
      exact chokes_each (fun y => ih)
        (fun o u hu => lines_unit (hsize stages) hlines (Option.some.inj hu))
        (stages.semantics_forkJoin workerFunction join hlines) h

/-- A stage whose function returns, behind stages that do not die. -/
theorem loses_each (stages : Stages I O) {C : Component I O} {T : Component O U} {next : Stages I U}
    {f : O → Outcome (Option U)} {g : O → Option U} (hC : Implements C stages.behaviour)
    (himpl : Implements T (each f)) (hT : T.Loses (each f)) (hf : ∀ o, f o = .ret (g o))
    (hnext : ∀ xs, next.semantics xs = (stages.semantics xs).filterMap g) (queueSize : ℕ) :
    (C.seq (T.seq (syncChannel U queueSize))).Loses next.behaviour := by
  have hloses := Component.Loses.seq hC (fun _ => id) (himpl.channel queueSize)
    (hT.channel himpl queueSize)
  refine hloses.congr (fun xs => ?_) fun xs => ?_
  · exact (hnext xs).trans (emitted_of_returns hf _).symm
  · simp [behaviour, Behaviour.comp, Behaviour.total, each, Panics, hf]

theorem configure_loses (stages : Stages I O) (queueSize : ℕ) :
    (stages.configure (.new I queueSize)).pipeline.Loses stages.behaviour := by
  cases stages with
  | none =>
      exact loses_each none (syncChannel_implements queueSize) (thread_implements _)
        (thread_loses _) (fun _ => rfl) (fun xs => List.filterMap_some.symm) queueSize
  | map stages f =>
      exact loses_each stages (stages.configure_new_implements queueSize) (thread_implements _)
        (thread_loses _) (fun o => rfl) (stages.semantics_map f) _
  | filter stages f =>
      exact loses_each stages (stages.configure_new_implements queueSize) (thread_implements _)
        (thread_loses _) (fun o => rfl)
        (stages.semantics_filter f) _
  | filterMap stages f =>
      exact loses_each stages (stages.configure_new_implements queueSize) (thread_implements _)
        (thread_loses _) (fun o => rfl) (fun xs => rfl) _
  | forkJoin stages workerFunction nLines join hlines =>
      have hline := ForkJoin.worker_implements
        (stages.configure (.new I queueSize)).queueSize fun o line => .ret (workerFunction o line)
      exact loses_each stages (stages.configure_new_implements queueSize)
        (ForkJoin.lines_implements hline hlines) (ForkJoin.lines_loses hline hlines)
        (joined_of_returns workerFunction nLines join)
        (stages.semantics_forkJoin workerFunction join hlines) _

theorem configure_mute (stages : Stages I O) (queueSize : ℕ) :
    (stages.configure (.new I queueSize)).pipeline.Mute := by
  cases stages with
  | none | map | filter | filterMap | forkJoin =>
      exact .seq (.seq syncChannel_mute)

end Stages

/-! ## Sending without a reader -/

/-- `input_tx.send` returns `Ok` in this state: it does not fail; while it waits a thread can
move; and the threads do not move forever without it. -/
structure SendReturns (C : Component I O) (s : C.State) : Prop where
  succeeds : ∀ o s', ¬ C.step s (some .hangup, o) s'
  moves : C.Stuck s → ∀ x, C.TakesIn s (.item x)
  returns : ∃ bound, ∀ rest t, Run C.step s rest t → (∀ p ∈ rest, p.2.1 = none) →
    rest.length ≤ bound

/-- Once `output_rx` was dropped, every `send` returns `Ok`, until the sender is dropped. -/
def KeepsConsuming (C : Component I O) : Prop :=
  ∀ trace s, C.Runs trace s → .hangup ∈ outputs trace → .eof ∉ inputs trace → SendReturns C s

namespace Stages

variable {stages : Stages I O} {queueSize : ℕ}
  {trace : List ((stages.configure (.new I queueSize)).pipeline.State × Exchange I O)}
  {s : (stages.configure (.new I queueSize)).pipeline.State}

/-- A send does not fail while nothing is lost. -/
theorem send_succeeds (hrun : (stages.configure (.new I queueSize)).pipeline.Runs trace s)
    (hopen : .eof ∉ inputs trace)
    (hall : items (outputs trace) = stages.semantics (items (inputs trace)))
    (o : Option (Signal O)) (s' : (stages.configure (.new I queueSize)).pipeline.State) :
    ¬ (stages.configure (.new I queueSize)).pipeline.step s (some .hangup, o) s' := by
  intro hstep
  have hrun' := hrun.snoc hstep
  have hended : ¬ Ended (inputs trace) := fun h => hopen (mem_of_closing h)
  have hhungUp : HungUp (inputs (trace ++ [(s, (some .hangup, o))])) := by
    rw [inputs_snoc]
    exact hungUp_hangup.mpr hended
  have hsame : items (inputs (trace ++ [(s, (some .hangup, o))])) = items (inputs trace) := by
    rw [inputs_snoc]
    exact items_hangup
  -- everything was put out before, so nothing is put out now
  have hless := (stages.configure_new_implements queueSize).items hrun'
  rw [hsame] at hless
  have hmore : items (outputs trace) <+: items (outputs (trace ++ [(s, (some .hangup, o))])) := by
    rw [outputs_snoc]
    exact (List.prefix_append _ _).filterMap _
  refine configure_loses stages queueSize _ _ hrun' hhungUp (fun h => h.not_hungUp hhungUp) id ?_
  rw [hsame]
  refine hless.eq_of_length_le ?_
  have hout : stages.behaviour.out (items (inputs trace)) = items (outputs trace) := hall.symm
  rw [hout]
  exact hmore.length_le

private theorem send_returns (hrun : (stages.configure (.new I queueSize)).pipeline.Runs trace s)
    (hhangup : .hangup ∈ outputs trace) (hopen : .eof ∉ inputs trace)
    (hall : items (outputs trace) = stages.semantics (items (inputs trace))) :
    SendReturns (stages.configure (.new I queueSize)).pipeline s where
  succeeds := send_succeeds hrun hopen hall
  moves hstuck x := by
    rcases (configure_responsive stages queueSize).stops hrun hstuck hhangup with
      ⟨heof, -⟩ | ⟨-, htakes⟩
    · exact absurd heof hopen
    · -- a stuck pipeline takes the item, or the send would fail
      rcases htakes x with hitem | ⟨s', hstep⟩
      · exact hitem
      · exact absurd hstep (send_succeeds hrun hopen hall _ _)
  returns := by
    obtain ⟨cost, rank, hranked⟩ := configure_hasRank stages queueSize 0
    refine ⟨rank s, fun rest t hrest hinputs => ?_⟩
    have hbounded := hranked.bounded hrest hinputs
    -- nobody receives any more, so every step counts
    have hsilent : ∀ p ∈ rest, (!p.2.2.any Signal.isEof) = true := by
      intro p hp
      obtain ⟨before, u, -, hbefore, hstep⟩ := hrest.exists_before hp
      have hhangup' : .hangup ∈ outputs (trace ++ before) := by
        rw [outputs, List.filterMap_append]
        exact List.mem_append_left _ hhangup
      have hnone := configure_mute stages queueSize _ _ _ _ (hrun.append hbefore) hhangup' hstep
      simp [hnone]
    rw [List.countP_eq_length.mpr hsilent] at hbounded
    omega

end Stages

/-! ## Pipelines that go on -/

/-- **A pipeline keeps consuming as long as nothing is lost.**  After its reader was dropped, a
send returns `Ok` in every run in which all results of the items sent were received before; in
all runs of a pipeline it does if and only if the stages discard every item. -/
theorem keeps_consuming_iff (stages : Stages I O) {queueSize : ℕ} (hqueue : 1 ≤ queueSize) :
    (∀ trace s, (stages.configure (.new I queueSize)).pipeline.Runs trace s →
      .hangup ∈ outputs trace → .eof ∉ inputs trace →
      items (outputs trace) = stages.semantics (items (inputs trace)) → SendReturns _ s) ∧
    (KeepsConsuming (stages.configure (.new I queueSize)).pipeline ↔
      ∀ x, stages.semantics [x] = []) := by
  refine ⟨fun trace s => Stages.send_returns, fun hkeeps x => ?_, fun hdiscard => ?_⟩
  · obtain ⟨y, hy⟩ := stages.semantics_single x
    cases y with
    | none => exact hy
    | some y =>
        -- a run up to the step in which the send fails
        obtain ⟨-, s, hdropped, count, t, hchokes⟩ := stages.configure_chokes hqueue hy
        obtain ⟨u, u', before, o, after, hbefore, hfails, -, -⟩ := hchokes.exists_last
        obtain ⟨trace, hrun, hins, houts⟩ := (hdropped.append hbefore).exists_run
        exact absurd hfails ((hkeeps _ _ hrun (by simp [houts]) (by simp [hins])).succeeds _ _)
  · intro trace s hrun hhangup hopen
    have hitems := (pipeline_semantics stages queueSize hrun).1
    rw [stages.semantics_eq_nil hdiscard, List.prefix_nil] at hitems
    exact Stages.send_returns hrun hhangup hopen
      (hitems.trans (stages.semantics_eq_nil hdiscard _).symm)

/-- A filter that discards everything goes on without a reader. -/
theorem keeps_consuming_iff_filter :
    KeepsConsuming ((Stages.none.filter fun _ : ℕ => false).configure (.new ℕ 1)).pipeline :=
  (keeps_consuming_iff _ (le_refl 1)).2.mpr fun _ => rfl

/-- `FactorioBuilder::new(4).build()`: an item is sent, the thread receives it, the reader is
dropped, the send of the thread fails, the thread returns, and the next send fails. -/
theorem not_keeps_consuming_new :
    ¬ KeepsConsuming (Stages.none.configure (.new ℕ 4)).pipeline := by
  intro hkeeps
  have start : ((syncChannel ℕ 4).seq ((thread fun t => .ret (some t)).seq (syncChannel ℕ 4))).Runs
      [] ((⟨[], true, true⟩ : SyncChannel ℕ), (Thread.waiting : Thread ℕ),
        (⟨[], true, true⟩ : SyncChannel ℕ)) := .nil
  have hrun := ((((start.snoc
    (.left (.send (x := 5) (by simp)))).snoc
    (.both .recv (.left (.produce rfl)))).snoc
    (.right (.right .dropReceiver))).snoc
    (.right (.both .sendFails .sendFails))).snoc
    (.both .dropReceiver (.left .dropReceiver))
  have hdropped : Signal.hangup ∈ [(Signal.hangup : Signal ℕ)] := List.mem_singleton_self _
  have hopen : Signal.eof ∉ [Signal.item 5] := by simp
  exact (hkeeps _ _ hrun hdropped hopen).succeeds none _ (.left .sendFails)

end RustCourse.Lesson07
