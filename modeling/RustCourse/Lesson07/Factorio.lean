import Mathlib.Logic.Function.Basic
import RustCourse.Lib.SyncChannel

/-!
# The assembly lines of lesson 07

`lessons/07/exercises/src/factorio.rs`: a builder that starts, for every stage, threads
that are linked by `sync_channel`s of one size.  A thread is a dataflow component, a
channel is one, and a stage of the pipeline is put after the pipeline built so far.

The loop of every thread but two is the one of `filter_map`: receive, call the user's
function, send what it returned.  The two others are the distributer and the gatherer of
`fork_join`, which share with the worker threads between them one component
(`ForkJoin.Step`).  A thread that leaves its loop drops the channel ends it holds, in
any order, and only the elements of a `Vec` in their order.

A user function may panic, which ends the thread it runs on (`Outcome`).
-/

namespace RustCourse.Lesson07

open Dataflow

variable {I O L U : Type}

/-! ## User functions -/

/-- A call of a user function. -/
inductive Outcome (α : Type)
  | ret (result : α)
  | panic

namespace Outcome

variable {α β : Type}

/-- The function is applied to what the call returns. -/
def map (f : α → β) : Outcome α → Outcome β
  | ret result => ret (f result)
  | panic => panic

/-- The next call is made with what the first one returns. -/
def bind : Outcome α → (α → Outcome β) → Outcome β
  | ret result, f => f result
  | panic, _ => panic

/-- The results of a list of calls, if all of them return. -/
def all : List (Outcome α) → Outcome (List α)
  | [] => ret []
  | ret result :: rest => (all rest).map (result :: ·)
  | panic :: _ => panic

end Outcome

/-! ## The loop of a thread -/

/-- Where the thread of a stage is. -/
inductive Thread (U : Type)
  /-- in `recv` -/
  | waiting
  /-- in `send` -/
  | sending (item : U)
  /-- out of its loop, still holding the receiver or the sender or both -/
  | exiting (receiver sender : Bool)

/-- `while let Ok(o) = old_output_rx.recv() { if let Some(u) = f(o) { .. output_tx.send(u) .. } }`
-/
inductive Thread.Step (f : I → Outcome (Option U)) : Thread U → Exchange I U → Thread U → Prop
  | produce {o u} : f o = .ret (some u) → Step f .waiting (some (.item o), none) (.sending u)
  | skip {o} : f o = .ret none → Step f .waiting (some (.item o), none) .waiting
  | panics {o} : f o = .panic → Step f .waiting (some (.item o), none) (.exiting true true)
  | recvFails : Step f .waiting (some .eof, none) (.exiting true true)
  | send {u} : Step f (.sending u) (none, some (.item u)) .waiting
  | sendFails {u} : Step f (.sending u) (none, some .hangup) (.exiting true true)
  | dropReceiver {sender} :
      Step f (.exiting true sender) (some .hangup, none) (.exiting false sender)
  | dropSender {receiver} :
      Step f (.exiting receiver true) (none, some .eof) (.exiting receiver false)

/-- The thread of a stage. -/
def thread (f : I → Outcome (Option U)) : Component I U where
  State := Thread U
  init := .waiting
  step := Thread.Step f

/-! ## `fork_join` -/

namespace ForkJoin

/-- Where the distributer is; lines are counted from 0. -/
inductive Distributer (O : Type)
  /-- in `self.output_rx.recv()` -/
  | waiting
  /-- in `in_tx.send` of a line -/
  | sending (item : O) (line : ℕ)
  /-- out of its loop, still holding the receiver or not, and the senders from a line on -/
  | exiting (receiver : Bool) (line : ℕ)

/-- The rest of the loop over the lines. -/
def Distributer.sendFrom (nLines : ℕ) (item : O) (line : ℕ) : Distributer O :=
  if line < nLines then .sending item line else .waiting

/-- Where the gatherer is. -/
inductive Gatherer (L U : Type)
  /-- in the loop over the lines, with `worker_outputs` -/
  | gathering (outputs : List L)
  /-- in `new_output_tx.send` -/
  | sending (item : U)
  /-- out of its loop, still holding the sender or not, and the receivers from a line on -/
  | exiting (sender : Bool) (line : ℕ)

/-- The distributer, the lines, each a worker thread with its two channels, and the
gatherer. -/
structure State (O U : Type) (Line : Component (O × ℕ) L) (nLines : ℕ) where
  distributer : Distributer O
  lines : Fin nLines → Line.State
  gatherer : Gatherer L U

/-- A worker thread never receives and sends in one step, so a signal on one port of a
line is a step of the line and one of its two neighbours. -/
inductive Step {nLines : ℕ} (Line : Component (O × ℕ) L) (join : List L → Outcome U) :
    State O U Line nLines → Exchange O U → State O U Line nLines → Prop
  | receive {o lines g} : Step Line join ⟨.waiting, lines, g⟩ (some (.item o), none)
      ⟨.sendFrom nLines o 0, lines, g⟩
  | recvFails {lines g} : Step Line join ⟨.waiting, lines, g⟩ (some .eof, none)
      ⟨.exiting true 0, lines, g⟩
  | distribute {o lines g} {k : Fin nLines} {line} :
      Line.step (lines k) (some (.item (o, k.val)), none) line →
      Step Line join ⟨.sending o k, lines, g⟩ (none, none)
        ⟨.sendFrom nLines o (k + 1), Function.update lines k line, g⟩
  | distributeFails {o lines g} {k : Fin nLines} {line} :
      Line.step (lines k) (some .hangup, none) line →
      Step Line join ⟨.sending o k, lines, g⟩ (none, none)
        ⟨.exiting true 0, Function.update lines k line, g⟩
  | dropReceiver {k lines g} : Step Line join ⟨.exiting true k, lines, g⟩ (some .hangup, none)
      ⟨.exiting false k, lines, g⟩
  | dropLineSender {receiver lines g} {k : Fin nLines} {line} :
      Line.step (lines k) (some .eof, none) line →
      Step Line join ⟨.exiting receiver k, lines, g⟩ (none, none)
        ⟨.exiting receiver (k + 1), Function.update lines k line, g⟩
  | work {d lines g} {k : Fin nLines} {line} : Line.step (lines k) (none, none) line →
      Step Line join ⟨d, lines, g⟩ (none, none) ⟨d, Function.update lines k line, g⟩
  | gather {d lines outputs output} {k : Fin nLines} {line} : outputs.length = k.val →
      Line.step (lines k) (none, some (.item output)) line →
      Step Line join ⟨d, lines, .gathering outputs⟩ (none, none)
        ⟨d, Function.update lines k line, .gathering (outputs ++ [output])⟩
  | gatherFails {d lines outputs} {k : Fin nLines} {line} : outputs.length = k.val →
      Line.step (lines k) (none, some .eof) line →
      Step Line join ⟨d, lines, .gathering outputs⟩ (none, none)
        ⟨d, Function.update lines k line, .exiting true 0⟩
  | join {d lines outputs u} : outputs.length = nLines → join outputs = .ret u →
      Step Line join ⟨d, lines, .gathering outputs⟩ (none, none) ⟨d, lines, .sending u⟩
  | joinPanics {d lines outputs} : outputs.length = nLines → join outputs = .panic →
      Step Line join ⟨d, lines, .gathering outputs⟩ (none, none) ⟨d, lines, .exiting true 0⟩
  | send {d lines u} : Step Line join ⟨d, lines, .sending u⟩ (none, some (.item u))
      ⟨d, lines, .gathering []⟩
  | sendFails {d lines u} : Step Line join ⟨d, lines, .sending u⟩ (none, some .hangup)
      ⟨d, lines, .exiting true 0⟩
  | dropSender {d k lines} : Step Line join ⟨d, lines, .exiting true k⟩ (none, some .eof)
      ⟨d, lines, .exiting false k⟩
  | dropLineReceiver {d lines sender} {k : Fin nLines} {line} :
      Line.step (lines k) (none, some .hangup) line →
      Step Line join ⟨d, lines, .exiting sender k⟩ (none, none)
        ⟨d, Function.update lines k line, .exiting sender (k + 1)⟩

/-- A worker thread between its two channels. -/
def worker (queueSize : ℕ) (workerFunction : O → ℕ → Outcome L) : Component (O × ℕ) L :=
  (syncChannel (O × ℕ) queueSize).seq
    ((thread fun job => (workerFunction job.1 job.2).map some).seq (syncChannel L queueSize))

/-- `nLines` lines between a distributer and a gatherer. -/
def lines (Line : Component (O × ℕ) L) (nLines : ℕ) (join : List L → Outcome U) :
    Component O U where
  State := State O U Line nLines
  init := ⟨.waiting, fun _ => Line.init, .gathering []⟩
  step := Step Line join

end ForkJoin

/-! ## The builder -/

/-- A `FactorioBuilder`; the ends `input_tx` and `output_rx` are the ports of the
component. -/
structure FactorioBuilder (I O : Type) : Type 1 where
  queueSize : ℕ
  pipeline : Component I O

namespace FactorioBuilder

/-- `FactorioBuilder::new` -/
def new (T : Type) (queueSize : ℕ) : FactorioBuilder T T where
  queueSize
  pipeline := (syncChannel T queueSize).seq
    ((thread fun t => .ret (some t)).seq (syncChannel T queueSize))

/-- `filter_map` -/
def filterMap (builder : FactorioBuilder I O) (f : O → Outcome (Option U)) :
    FactorioBuilder I U where
  queueSize := builder.queueSize
  pipeline := builder.pipeline.seq ((thread f).seq (syncChannel U builder.queueSize))

/-- `map`, which is a `filter_map`. -/
def map (builder : FactorioBuilder I O) (f : O → Outcome U) : FactorioBuilder I U :=
  builder.filterMap fun o => (f o).map some

/-- `filter`, which is a `filter_map`. -/
def filter (builder : FactorioBuilder I O) (f : O → Outcome Bool) : FactorioBuilder I O :=
  builder.filterMap fun o => (f o).map fun keep => if keep then some o else none

/-- `fork_join` -/
def forkJoin (builder : FactorioBuilder I O) (workerFunction : O → ℕ → Outcome L) (nLines : ℕ)
    (join : List L → Outcome U) : FactorioBuilder I U where
  queueSize := builder.queueSize
  pipeline := builder.pipeline.seq
    ((ForkJoin.lines (ForkJoin.worker builder.queueSize workerFunction) nLines join).seq
      (syncChannel U builder.queueSize))

end FactorioBuilder

/-! ## Pipelines whose functions return -/

/-- A sequence of stages, each configured with functions that always return. -/
inductive Stages (I : Type) : Type → Type 1
  | none : Stages I I
  | map {O U : Type} : Stages I O → (O → U) → Stages I U
  | filter {O : Type} : Stages I O → (O → Bool) → Stages I O
  | filterMap {O U : Type} : Stages I O → (O → Option U) → Stages I U
  | forkJoin {O L U : Type} (stages : Stages I O) (workerFunction : O → ℕ → L) (nLines : ℕ)
      (join : List L → U) : 1 ≤ nLines → Stages I U

namespace Stages

/-- The stages are configured on a builder, one after the other. -/
def configure {A : Type} (builder : FactorioBuilder A I) :
    {O : Type} → Stages I O → FactorioBuilder A O
  | _, none => builder
  | _, map stages f => (configure builder stages).map fun o => .ret (f o)
  | _, filter stages f => (configure builder stages).filter fun o => .ret (f o)
  | _, filterMap stages f => (configure builder stages).filterMap fun o => .ret (f o)
  | _, forkJoin stages workerFunction nLines join _ =>
      (configure builder stages).forkJoin (fun o line => .ret (workerFunction o line)) nLines
        fun outputs => .ret (join outputs)

/-- What the stages compute, as functions on lists. -/
def semantics : {O : Type} → Stages I O → List I → List O
  | _, none, inputs => inputs
  | _, map stages f, inputs => (stages.semantics inputs).map f
  | _, filter stages f, inputs => (stages.semantics inputs).filter f
  | _, filterMap stages f, inputs => (stages.semantics inputs).filterMap f
  | _, forkJoin stages workerFunction nLines join _, inputs =>
      (stages.semantics inputs).map fun x => join ((List.range nLines).map (workerFunction x))

end Stages

end RustCourse.Lesson07
