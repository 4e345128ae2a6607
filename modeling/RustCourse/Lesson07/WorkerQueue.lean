import Mathlib.Data.List.FinRange
import Mathlib.Logic.Function.Basic
import RustCourse.Lib.SyncChannel

/-!
# The worker queue of lesson 07

`lessons/07/exercises/src/worker_queue.rs`: an owner deals jobs to worker threads in turn,
each of which has a bounded channel of its own, and the workers send their results into one
unbounded channel.  The owner calls `enqueue` and `next_result` in any order and then
`close`; `fetch_update` hands out the value it found and stores the next one.

`close` drops the senders of the jobs one after the other and joins the workers in their
order.  The receiver of the results is a field that `close` does not move, so it is dropped
when `close` returns, which is why no worker ever fails to send.

Every `unwrap` has a step for its panic.  None of them is reachable (`Valid`), and the model
stops there.

A label names who moves and what is passed on, so the jobs assigned, the jobs executed and the
results returned can be read off the trace of a run (`assigned`, `executed`, `returned`).
-/

namespace RustCourse.Lesson07.WorkerQueue

open Dataflow Transition

variable {T : Type} {n : ℕ}

/-- A `Box<dyn FnOnce() -> T + Send>` that returns. -/
abbrev Job (T : Type) := Unit → T

/-! ## States -/

/-- Where a worker thread is. -/
inductive Phase (T : Type)
  /-- in `jobs_rx.recv()` -/
  | waiting
  | running (job : Job T)
  /-- in `results_tx.send(result)` -/
  | sending (result : T)
  /-- out of its loop, still holding `jobs_rx` -/
  | leaving
  | ended
  | panicked

/-- A worker thread, and the channel of its jobs. -/
structure Worker (T : Type) where
  channel : SyncChannel (Job T)
  phase : Phase T

/-- Where the owner of the queue is. -/
inductive Owner (T : Type)
  | idle
  /-- in `self.jobs_txs[worker].send(Box::new(job))` -/
  | enqueuing (worker : ℕ) (job : Job T)
  /-- in `self.results_rx.recv()` -/
  | receiving
  /-- in `drop(self.jobs_txs)`, with the senders from a worker on -/
  | dropping (worker : ℕ)
  /-- in `handle.join()` of a worker -/
  | joining (worker : ℕ)
  /-- `close` has returned -/
  | closed
  | panicked

/-- The owner of the queue, the workers, and the results that nobody has received. -/
structure State (T : Type) (n : ℕ) where
  owner : Owner T
  nextWorker : ℕ
  workers : Fin n → Worker T
  results : List T

/-- `WorkerQueue::new` -/
def init (T : Type) (n : ℕ) : State T n where
  owner := .idle
  nextWorker := 0
  workers _ := ⟨⟨[], true, true⟩, .waiting⟩
  results := []

/-! ## Steps -/

/-- What a step does, as far as a run is told by it. -/
inductive Label (T : Type) (n : ℕ)
  /-- `enqueue` has chosen a worker -/
  | enqueue (worker : ℕ) (job : Job T)
  /-- `enqueue` returns -/
  | sent
  /-- `next_result` returns a result -/
  | returned (result : T)
  /-- any other step of the owner -/
  | owner
  /-- a worker calls a job -/
  | execute (worker : Fin n) (job : Job T)
  /-- any other step of a worker -/
  | work (worker : Fin n)

open Function in
/-- The owner or a worker moves, or they hand over a job together. -/
inductive Step (queueSize : ℕ) : State T n → Label T n → State T n → Prop
  | enqueue {x workers results job} : 0 < n →
      Step queueSize ⟨.idle, x, workers, results⟩ (.enqueue x job)
        ⟨.enqueuing x job, (x + 1) % n, workers, results⟩
  /-- the remainder by zero -/
  | enqueuePanics {x workers results job} : n = 0 →
      Step queueSize ⟨.idle, x, workers, results⟩ (.enqueue x job)
        ⟨.panicked, x, workers, results⟩
  | send {x workers results job} {k : Fin n} {channel} :
      SyncChannel.Step queueSize (workers k).channel (some (.item job), none) channel →
      Step queueSize ⟨.enqueuing k job, x, workers, results⟩ .sent
        ⟨.idle, x, update workers k ⟨channel, (workers k).phase⟩, results⟩
  /-- with queue size 0 a send waits for a receive -/
  | handOver {x workers results job} {k : Fin n} {channel} :
      SyncChannel.Step queueSize (workers k).channel (some (.item job), some (.item job))
        channel →
      (workers k).phase = .waiting →
      Step queueSize ⟨.enqueuing k job, x, workers, results⟩ .sent
        ⟨.idle, x, update workers k ⟨channel, .running job⟩, results⟩
  | sendPanics {x workers results job} {k : Fin n} {channel} :
      SyncChannel.Step queueSize (workers k).channel (some .hangup, none) channel →
      Step queueSize ⟨.enqueuing k job, x, workers, results⟩ .owner
        ⟨.panicked, x, workers, results⟩
  | indexPanics {x workers results worker job} : n ≤ worker →
      Step queueSize ⟨.enqueuing worker job, x, workers, results⟩ .owner
        ⟨.panicked, x, workers, results⟩
  | nextResult {x workers results} :
      Step queueSize ⟨.idle, x, workers, results⟩ .owner ⟨.receiving, x, workers, results⟩
  | receive {x workers result results} :
      Step queueSize ⟨.receiving, x, workers, result :: results⟩ (.returned result)
        ⟨.idle, x, workers, results⟩
  /-- no worker has its `results_tx` any more -/
  | receivePanics {x workers} :
      (∀ k, (workers k).phase = .ended ∨ (workers k).phase = .panicked) →
      Step queueSize ⟨.receiving, x, workers, []⟩ .owner ⟨.panicked, x, workers, []⟩
  | close {x workers results} :
      Step queueSize ⟨.idle, x, workers, results⟩ .owner ⟨.dropping 0, x, workers, results⟩
  | dropSender {x workers results} {k : Fin n} {channel} :
      SyncChannel.Step queueSize (workers k).channel (some .eof, none) channel →
      Step queueSize ⟨.dropping k, x, workers, results⟩ .owner
        ⟨.dropping (k + 1), x, update workers k ⟨channel, (workers k).phase⟩, results⟩
  | dropped {x workers results} :
      Step queueSize ⟨.dropping n, x, workers, results⟩ .owner ⟨.joining 0, x, workers, results⟩
  | join {x workers results} {k : Fin n} : (workers k).phase = .ended →
      Step queueSize ⟨.joining k, x, workers, results⟩ .owner
        ⟨.joining (k + 1), x, workers, results⟩
  | joinPanics {x workers results} {k : Fin n} : (workers k).phase = .panicked →
      Step queueSize ⟨.joining k, x, workers, results⟩ .owner ⟨.panicked, x, workers, results⟩
  | closed {x workers results} :
      Step queueSize ⟨.joining n, x, workers, results⟩ .owner ⟨.closed, x, workers, results⟩
  | recv {owner x workers results job} {k : Fin n} {channel} :
      SyncChannel.Step queueSize (workers k).channel (none, some (.item job)) channel →
      (workers k).phase = .waiting →
      Step queueSize ⟨owner, x, workers, results⟩ (.work k)
        ⟨owner, x, update workers k ⟨channel, .running job⟩, results⟩
  | execute {owner x workers results job} {k : Fin n} : (workers k).phase = .running job →
      Step queueSize ⟨owner, x, workers, results⟩ (.execute k job)
        ⟨owner, x, update workers k ⟨(workers k).channel, .sending (job ())⟩, results⟩
  | sendResult {owner x workers results result} {k : Fin n} : owner ≠ .closed →
      (workers k).phase = .sending result →
      Step queueSize ⟨owner, x, workers, results⟩ (.work k)
        ⟨owner, x, update workers k ⟨(workers k).channel, .waiting⟩, results ++ [result]⟩
  | sendResultPanics {x workers results result} {k : Fin n} {channel} :
      (workers k).phase = .sending result →
      SyncChannel.Step queueSize (workers k).channel (none, some .hangup) channel →
      Step queueSize ⟨.closed, x, workers, results⟩ (.work k)
        ⟨.closed, x, update workers k ⟨channel, .panicked⟩, results⟩
  | recvFails {owner x workers results} {k : Fin n} {channel} :
      SyncChannel.Step queueSize (workers k).channel (none, some .eof) channel →
      (workers k).phase = .waiting →
      Step queueSize ⟨owner, x, workers, results⟩ (.work k)
        ⟨owner, x, update workers k ⟨channel, .leaving⟩, results⟩
  | dropReceiver {owner x workers results} {k : Fin n} {channel} :
      SyncChannel.Step queueSize (workers k).channel (none, some .hangup) channel →
      (workers k).phase = .leaving →
      Step queueSize ⟨owner, x, workers, results⟩ (.work k)
        ⟨owner, x, update workers k ⟨channel, .ended⟩, results⟩

/-! ## What a run has done -/

namespace Label

/-- The job that the step has given to a worker. -/
def assigned : Label T n → Option (ℕ × Job T)
  | enqueue worker job => some (worker, job)
  | _ => none

/-- The job that the step has called. -/
def executed : Label T n → Option (Fin n × Job T)
  | execute worker job => some (worker, job)
  | _ => none

/-- The result that the step has returned. -/
def result : Label T n → Option T
  | returned result => some result
  | _ => none

/-- The step is one of the worker. -/
def IsOf (k : Fin n) : Label T n → Prop
  | execute worker _ => worker = k
  | work worker => worker = k
  | _ => False

end Label

/-- The calls of `enqueue`, each with the worker it has chosen. -/
def assigned (trace : List (State T n × Label T n)) : List (ℕ × Job T) :=
  trace.filterMap fun p => p.2.assigned

/-- The jobs that were called, each with the worker that called it. -/
def executed (trace : List (State T n × Label T n)) : List (Fin n × Job T) :=
  trace.filterMap fun p => p.2.executed

/-- The results that `next_result` has returned. -/
def returned (trace : List (State T n × Label T n)) : List T :=
  trace.filterMap fun p => p.2.result

/-- The jobs of one worker. -/
def jobsOf {κ : Type} [DecidableEq κ] (worker : κ) (jobs : List (κ × Job T)) : List (Job T) :=
  (jobs.filter fun p => p.1 = worker).map Prod.snd

namespace Phase

/-- The job that a worker has taken and not called yet. -/
def inHand : Phase T → List (Job T)
  | running job => [job]
  | _ => []

/-- The result that a worker is about to send. -/
def held : Phase T → Option T
  | sending result => some result
  | _ => none

end Phase

/-- The job that `enqueue` has not handed to the worker yet. -/
def Owner.pending (worker : ℕ) : Owner T → List (Job T)
  | enqueuing k job => if k = worker then [job] else []
  | _ => []

/-- The results that the workers are about to send. -/
def State.held (s : State T n) : List T :=
  (List.finRange n).filterMap fun k => (s.workers k).phase.held

end RustCourse.Lesson07.WorkerQueue
