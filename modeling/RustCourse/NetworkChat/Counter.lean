import RustCourse.Lib.Transition
import RustCourse.Lib.Word

/-!
# The client counter of the network chat

`archive/2023/projects/network-chat/04/src/main.rs`, a server whose tasks share a counter.
`client_loop` adds one when it starts and takes one away behind its loop.  The tasks run on one
thread and only give way at an await point, which is the accept of `server_loop` and the
`select!` of `client_loop`; so a step is what a task does from one of them to the next.

The loop is left with `break`, at the end of the stream and at the timeout, and with the `?` on
the result of the read, and that one leaves the function.

## Strategy

The counter is the number of live tasks, and one more for every task that was left by the `?`.
So it is exact as long as no read fails, and a read that fails makes it wrong for good, since
it never goes down again for that task.  A debug build and a release build differ only where
the counter leaves its type.
-/

namespace RustCourse.NetworkChat.Stage04

open Transition

/-! ## The server -/

/-- Where a task is. -/
inductive ClientLoop
  /-- `spawn_local` has got it, and it has not run yet -/
  | spawned
  /-- at its `select!` -/
  | waiting
  | returned
  /-- it returned the error of a read -/
  | failed
  /-- the counter overflowed -/
  | panicked
  deriving DecidableEq, Repr

/-- The counter of the server, and its tasks. -/
structure Server where
  connectedClients : UInt64
  /-- in the order in which they were spawned -/
  tasks : List ClientLoop
  deriving DecidableEq, Repr

/-- How the `select!` of a task ends. -/
inductive Selected
  /-- `Ok(n)` for `n > 0` -/
  | data
  /-- `Ok(0)` -/
  | eof
  | error
  | timeout
  deriving DecidableEq, Repr

/-- A client is accepted, or a task goes on. -/
inductive Label
  /-- `accept` returns a client; where it fails the server is over, and its tasks with it -/
  | accept
  | start (task : ℕ)
  | select (task : ℕ) (selected : Selected)
  deriving DecidableEq, Repr

namespace Server

/-- Nobody is connected. -/
def init : Server := ⟨0, []⟩

/-- A task goes on. -/
def set (s : Server) (task : ℕ) (phase : ClientLoop) : Server :=
  { s with tasks := s.tasks.set task phase }

/-- `connected_clients += 1` -/
def enter (build : Build) (s : Server) (task : ℕ) : Server :=
  match build.add64 s.connectedClients 1 with
  | none => s.set task .panicked
  | some connectedClients => { s.set task .waiting with connectedClients }

/-- `connected_clients -= 1` -/
def leave (build : Build) (s : Server) (task : ℕ) : Server :=
  match build.sub64 s.connectedClients 1 with
  | none => s.set task .panicked
  | some connectedClients => { s.set task .returned with connectedClients }

/-- The tasks that have started and not ended. -/
def live (s : Server) : ℕ := s.tasks.count .waiting

end Server

/-- `accept` returns, or a task takes a step. -/
def step (build : Build) (s : Server) : Label → Option Server
  | .accept => some { s with tasks := s.tasks ++ [.spawned] }
  | .start task => if s.tasks[task]? = some .spawned then some (s.enter build task) else none
  | .select task selected =>
      if s.tasks[task]? = some .waiting then
        match selected with
        | .data => some s
        | .eof | .timeout => some (s.leave build task)
        | .error => some (s.set task .failed)
      else none

/-! ## Live tasks -/

variable {build : Build} {s s' : Server} {l : Label} {task : ℕ} {trace : List (Server × Label)}

/-- A task that moves is counted where it was before and where it is then. -/
theorem live_set {phase : ClientLoop} (h : s.tasks[task]? = some phase) (phase' : ClientLoop) :
    (s.set task phase').live + (if phase = .waiting then 1 else 0) =
      s.live + (if phase' = .waiting then 1 else 0) := by
  obtain ⟨hlt, rfl⟩ := List.getElem?_eq_some_iff.mp h
  have hcount := List.count_set (a := phase') (b := .waiting) hlt
  have hpos : s.tasks[task] = .waiting → 0 < s.tasks.count .waiting := by
    intro hwaiting
    exact List.count_pos_iff.mpr (hwaiting ▸ List.getElem_mem hlt)
  unfold Server.live Server.set
  simp only [beq_iff_eq] at hcount
  rw [hcount]
  split
  · next hwaiting =>
      have := hpos hwaiting
      omega
  · omega

private theorem live_pos (h : s.tasks[task]? = some .waiting) : 1 ≤ s.live :=
  List.count_pos_iff.mpr (List.mem_of_getElem? h)

/-! ## One step -/

/-- The counter is the number of live tasks. -/
def Server.Exact (s : Server) : Prop := s.connectedClients.toNat = s.live

/-- A task leaves its loop with `break`. -/
def Leaves : Label → Prop
  | .select _ .eof | .select _ .timeout => True
  | _ => False

/-- A task leaves its loop with `?`. -/
def ReadFails : Label → Prop
  | .select _ .error => True
  | _ => False

instance : DecidablePred ReadFails
  | .select _ .error => .isTrue trivial
  | .accept | .start _ | .select _ .data | .select _ .eof | .select _ .timeout => .isFalse id

private theorem pos_of_leaves (h : s.Exact) (hstep : step build s l = some s')
    (hleaves : Leaves l) : 1 ≤ s.connectedClients.toNat := by
  have hwaiting : ∃ task : ℕ, s.tasks[task]? = some ClientLoop.waiting := by
    cases l with
    | accept | start => exact hleaves.elim
    | select task selected =>
        simp only [step] at hstep
        split at hstep
        · next hwaiting => exact ⟨task, hwaiting⟩
        · exact nomatch hstep
  obtain ⟨task, hwaiting⟩ := hwaiting
  rw [h]
  exact live_pos hwaiting

theorem Server.Exact.enter (h : s.Exact) (htask : s.tasks[task]? = some .spawned)
    (hmemory : (s.enter build task).live < 2 ^ 64) : (s.enter build task).Exact := by
  unfold Server.enter at hmemory ⊢
  cases hadd : build.add64 s.connectedClients 1 with
  | none =>
      have hlive : (s.set task .panicked).live = s.live := live_set htask .panicked
      exact h.trans hlive.symm
  | some n =>
      rw [hadd] at hmemory
      have hlive : (s.set task .waiting).live = s.live + 1 := live_set htask .waiting
      have hmemory : (s.set task .waiting).live < 2 ^ 64 := hmemory
      show n.toNat = (s.set task .waiting).live
      rw [Build.toNat_of_add64 hadd, h, hlive]
      exact Nat.mod_eq_of_lt (hlive ▸ hmemory)

theorem Server.Exact.leave (h : s.Exact) (htask : s.tasks[task]? = some .waiting) :
    (s.leave build task).Exact := by
  have hpos : 1 ≤ s.connectedClients.toNat := h ▸ live_pos htask
  obtain ⟨n, hsub, hn⟩ := Build.exists_sub64 build (b := 1) hpos
  have hlive : (s.set task .returned).live + 1 = s.live := live_set htask .returned
  unfold Server.leave
  rw [hsub]
  show n.toNat = (s.set task .returned).live
  rw [hn, h, ← hlive]
  exact Nat.add_sub_cancel ..

/-- **The step lemma**: a step that is no failing read keeps the counter exact. -/
theorem exact_of_step (h : s.Exact) (hmemory : s'.live < 2 ^ 64)
    (hstep : step build s l = some s') (hread : ¬ ReadFails l) : s'.Exact := by
  cases l with
  | accept =>
      cases hstep
      show _ = (s.tasks ++ [ClientLoop.spawned]).count .waiting
      rw [List.count_append]
      exact h
  | start task =>
      simp only [step] at hstep
      split at hstep
      · next htask =>
          cases hstep
          exact h.enter htask hmemory
      · exact nomatch hstep
  -- a task leaves the select by data, by the end of the stream or by the timer
  | select task selected =>
      simp only [step] at hstep
      split at hstep
      · next htask =>
          cases selected with
          | data =>
              cases hstep
              exact h
          | eof | timeout =>
              cases hstep
              exact h.leave htask
          | error => exact absurd trivial hread
      · exact nomatch hstep

/-- A task whose read fails is gone, and is counted from then on. -/
theorem not_exact_of_readFails (h : s.Exact) (hstep : step build s l = some s')
    (hread : ReadFails l) : ¬ s'.Exact := by
  cases l with
  | accept | start => exact hread.elim
  | select task selected =>
      cases selected with
      | data | eof | timeout => exact hread.elim
      | error =>
          simp only [step] at hstep
          split at hstep
          · next htask =>
              cases hstep
              have hlive : (s.set task .failed).live + 1 = s.live := live_set htask .failed
              intro h'
              have hsame : s.live = (s.set task .failed).live := h.symm.trans h'
              omega
          · exact nomatch hstep

/-! ## Runs -/

/-- The counter is exact in every state of a run, and no step of it takes one from 0. -/
structure Accounts (build : Build) (trace : List (Server × Label)) : Prop where
  exact : ∀ before t, before <+: trace → Run (Fires (step build)) .init before t → t.Exact
  noUnderflow : ∀ p ∈ trace, Leaves p.2 → 1 ≤ p.1.connectedClients.toNat

/-- A `u64` has room for the live tasks of every state of the run.  Every one of them has a buffer
of 1024 bytes of its own. -/
def InMemory (build : Build) (trace : List (Server × Label)) : Prop :=
  ∀ before t, before <+: trace → Run (Fires (step build)) .init before t → t.live < 2 ^ 64

theorem InMemory.earlier {before : List (Server × Label)} (h : InMemory build trace)
    (hpre : before <+: trace) : InMemory build before :=
  fun before t hbefore hrun => h before t (hbefore.trans hpre) hrun

theorem exact_of_run (hrun : Run (Fires (step build)) .init trace s)
    (hmemory : InMemory build trace) (hreads : ∀ p ∈ trace, ¬ ReadFails p.2) : s.Exact := by
  refine hrun.invariantTraceUnder (C := fun _ l => ¬ ReadFails l)
    (I := fun trace t => InMemory build trace → t.Exact) hreads (fun _ => rfl) ?_ hmemory
  intro trace t l u hrun hexact hread hstep hmemory
  have hbefore := hmemory.earlier (List.prefix_append _ _)
  have hlive := hmemory _ u (List.prefix_refl _) (hrun.snoc hstep)
  exact exact_of_step (hexact hbefore) hlive hstep hread

@[simp] theorem length_set (s : Server) (task : ℕ) (phase : ClientLoop) :
    (s.set task phase).tasks.length = s.tasks.length := List.length_set

@[simp] theorem length_enter (s : Server) (task : ℕ) :
    (s.enter build task).tasks.length = s.tasks.length := by
  unfold Server.enter
  cases build.add64 s.connectedClients 1 <;> exact length_set ..

@[simp] theorem length_leave (s : Server) (task : ℕ) :
    (s.leave build task).tasks.length = s.tasks.length := by
  unfold Server.leave
  cases build.sub64 s.connectedClients 1 <;> exact length_set ..

theorem length_of_step (hstep : step build s l = some s') :
    s'.tasks.length ≤ s.tasks.length + 1 := by
  cases l with
  | accept =>
      cases hstep
      exact Nat.le_of_eq List.length_append
  | start task =>
      simp only [step] at hstep
      split at hstep
      · cases hstep
        simp
      · exact nomatch hstep
  | select task selected =>
      simp only [step] at hstep
      split at hstep
      · cases selected <;> cases hstep <;> simp
      · exact nomatch hstep

/-- Every task was accepted in a step of its own. -/
theorem live_le_length (hrun : Run (Fires (step build)) .init trace s) :
    s.live ≤ trace.length := by
  refine Nat.le_trans List.count_le_length ?_
  refine hrun.invariantTrace (I := fun trace t => t.tasks.length ≤ trace.length) (Nat.le_refl _) ?_
  intro trace t l u _ hle hstep
  rw [List.length_append, List.length_singleton]
  exact Nat.le_trans (length_of_step hstep) (Nat.succ_le_succ hle)

private theorem inMemory_of_short (hshort : trace.length < 2 ^ 64) : InMemory build trace :=
  fun _ _ hpre hrun => Nat.lt_of_le_of_lt (live_le_length hrun)
    (Nat.lt_of_le_of_lt hpre.length_le hshort)

/-! ## The counter -/

/-- **The client counter is exact, exactly if no read of the run fails.** -/
theorem counter_exact_iff (hrun : Run (Fires (step build)) .init trace s)
    (hmemory : InMemory build trace) :
    Accounts build trace ↔ ∀ p ∈ trace, ¬ ReadFails p.2 := by
  constructor
  · intro h p hp hread
    obtain ⟨before, after, rfl⟩ := List.append_of_mem hp
    obtain ⟨u, hbefore, hstep, -⟩ := hrun.split before p after rfl
    have hexact := h.exact before p.1 (List.prefix_append _ _) hbefore
    refine not_exact_of_readFails hexact hstep hread ?_
    refine h.exact (before ++ [p]) u ?_ (hbefore.snoc hstep)
    exact ⟨after, (List.append_cons before p after).symm⟩
  · intro hreads
    have hexact : ∀ before t, before <+: trace → Run (Fires (step build)) .init before t →
        t.Exact := fun before t hpre hbefore =>
      exact_of_run hbefore (hmemory.earlier hpre) fun p hp => hreads p (hpre.subset hp)
    refine ⟨hexact, fun p hp hleaves => ?_⟩
    obtain ⟨before, u, hpre, hbefore, hstep⟩ := hrun.exists_before hp
    exact pos_of_leaves (hexact before p.1 hpre hbefore) hstep hleaves

/-- Two clients, of whom one comes to the end of its stream and the other is timed out. -/
theorem counter_exact_iff_two : ∃ trace, Run (Fires (step .debug)) .init trace
    ⟨0, [.returned, .returned]⟩ ∧ Accounts .debug trace := by
  have hrun := @run_of_replay _ _ (step .debug) [.accept, .accept, .start 0, .start 1,
    .select 0 .data, .select 0 .eof, .select 1 .timeout] .init _ rfl
  exact ⟨_, hrun, (counter_exact_iff hrun (inMemory_of_short (by decide))).mpr (by decide)⟩

/-- A client whose connection is reset stays counted. -/
theorem reset_client_counted : ∃ trace s, Run (Fires (step .debug)) .init trace s ∧
    s.live = 0 ∧ s.connectedClients = 1 :=
  ⟨_, _, @run_of_replay _ _ (step .debug) [.accept, .start 0, .select 0 .error] .init _ rfl,
    rfl, rfl⟩

end RustCourse.NetworkChat.Stage04
