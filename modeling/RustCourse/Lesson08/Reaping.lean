import Mathlib.Data.Finset.Card
import RustCourse.Lesson08.Steps

/-!
# The acceptor of lesson 08

Before it serves or refuses a connection, the acceptor goes through the join handles, joins
the threads that have finished and takes their handles out.  `swap_remove` puts the last
handle in the place of the one it takes out, and threads finish while the loop runs.  Still
no handle is skipped or looked at twice: the handles in front of the index are those that
were seen unfinished in this pass, in order (`Passing`).

Every thread that has not finished is in the vector, or was popped by the drop
(`Tracked`), so the length of the vector bounds their number.

## Strategy

* **The vector.**  `swap_remove` permutes, so nobody is lost, and what stands in front of the
  index stays where it is.
* **The threads.**  The handles in the vector, the one in the hand of the acceptor and those
  popped by the drop are all the threads that have not finished (`Tracked`).
* **A pass.**  `lastPass` reads off the trace which handles were looked at since the acceptor
  last started from index 0; the invariant `Surveyed` follows it through the run.
-/

namespace RustCourse.Lesson08

open Transition

/-! ## `swap_remove` -/

section SwapRemove

variable {handles : List ThreadId} {i : ℕ} {handle : ThreadId}

theorem swapRemove_last (front : List ThreadId) :
    swapRemove (front ++ [handle]) front.length = front := by
  simp [swapRemove]

theorem swapRemove_middle (front back : List ThreadId) (last : ThreadId) :
    swapRemove (front ++ handle :: (back ++ [last])) front.length = front ++ last :: back := by
  have hlast : (front ++ handle :: (back ++ [last])).getLast? = some last := by
    rw [← List.cons_append, ← List.append_assoc, List.getLast?_concat]
  simp only [swapRemove, hlast]
  rw [List.set_append_right _ _ le_rfl, Nat.sub_self, List.set_cons_zero, ← List.cons_append,
    ← List.append_assoc, List.dropLast_concat]

theorem perm_swapRemove (h : handles[i]? = some handle) :
    handles.Perm (handle :: swapRemove handles i) ∧
      (swapRemove handles i).take i = handles.take i := by
  obtain ⟨hi, rfl⟩ := List.getElem?_eq_some_iff.mp h
  have hsplit : handles = handles.take i ++ handles[i] :: handles.drop (i + 1) := by simp
  have hlength : (handles.take i).length = i := by simp [hi.le]
  generalize hfront : handles.take i = front at hsplit hlength ⊢
  generalize handles[i] = handle at hsplit ⊢
  generalize handles.drop (i + 1) = back at hsplit
  subst hsplit hlength
  rcases List.eq_nil_or_concat back with rfl | ⟨back, last, rfl⟩
  · rw [swapRemove_last]
    exact ⟨List.perm_append_singleton _ _, List.take_length⟩
  · rw [List.concat_eq_append, swapRemove_middle]
    refine ⟨List.perm_middle.trans (.cons _ (.append_left _ ?_)), List.take_left⟩
    exact List.perm_append_singleton _ _

end SwapRemove

/-! ## The threads that have not finished -/

/-- It was spawned and has not finished. -/
def Phase.Running (phase : Phase) : Prop :=
  phase ≠ .absent ∧ phase ≠ .ended

/-- The handle that `drop` has popped. -/
def Drop.popped : Drop → List ThreadId
  | .joining (some handle) => [handle]
  | _ => []

/-- The handles that were not joined yet. -/
def Server.unjoined (s : Server) : List ThreadId :=
  s.handles ++ s.drop.popped

structure Tracked (maxClients : ℕ) (s : Server) : Prop where
  nodup : s.unjoined.Nodup
  spawned : ∀ t ∈ s.unjoined, t < s.spawned
  running : ∀ t, (s.phase t).Running → t ∈ s.unjoined
  few : s.unjoined.length ≤ maxClients
  /-- the acceptor and the drop exclude each other from the handles -/
  exclusive : (∃ i, s.acceptor = .reaping i) ∨ s.acceptor = .refusing →
    ∀ handle, s.drop ≠ .joining handle

section Steps

variable {maxClients : ℕ} {s s' : Server} {t : ThreadId}

theorem Moved.running {action : Action} (h : Moved s t action s') : (s.phase t).Running := by
  cases h <;> simp_all [Phase.Running]

theorem Tracked.handler {action : Action} (h : Tracked maxClients s)
    (hmoved : Moved s t action s') : Tracked maxClients s' := by
  have hunjoined : s'.unjoined = s.unjoined := by
    rw [Server.unjoined, Server.unjoined, hmoved.handles, hmoved.drop]
  obtain ⟨nodup, spawned, running, few, exclusive⟩ := h
  refine ⟨hunjoined ▸ nodup, ?_, ?_, hunjoined ▸ few, ?_⟩
  · rwa [hunjoined, hmoved.spawned]
  · intro u hu
    rw [hunjoined]
    by_cases hut : u = t
    · subst hut
      exact running u hmoved.running
    · rw [hmoved.phase_ne hut] at hu
      exact running u hu
  · rwa [hmoved.acceptor, hmoved.drop]

/-- **What one look of the acceptor at its handles can do.** -/
inductive Reaped (maxClients : ℕ) (s : Server) (i : ℕ) : Server → Prop
  | joined {handle} : s.handles[i]? = some handle → s.phase handle = .ended →
      Reaped maxClients s i { s with handles := swapRemove s.handles i }
  | kept {handle} : s.handles[i]? = some handle → s.phase handle ≠ .ended →
      Reaped maxClients s i { s with acceptor := .reaping (i + 1) }
  | full : s.handles.length ≤ i → maxClients ≤ s.handles.length →
      Reaped maxClients s i { s with acceptor := .refusing }
  | spawned : s.handles.length ≤ i → s.handles.length < maxClients →
      Reaped maxClients s i
        { s.setPhase s.spawned .reading with
          acceptor := .accepting
          handles := s.handles ++ [s.spawned]
          spawned := s.spawned + 1 }

theorem reaped_of_step (h : acceptorStep maxClients s .reap = some s') :
    ∃ i, s.acceptor = .reaping i ∧ Reaped maxClients s i s' := by
  simp only [acceptorStep] at h
  split at h
  · next i hreaping =>
      refine ⟨i, hreaping, ?_⟩
      split at h
      · next handle hhandle =>
          split at h <;> cases h
          · next hended => exact .joined hhandle hended
          · next hrunning => exact .kept hhandle hrunning
      · next hlast =>
          have hlength : s.handles.length ≤ i := List.getElem?_eq_none_iff.mp hlast
          split at h <;> cases h
          · next hfull => exact .full hlength hfull
          · next hroom => exact .spawned hlength (Nat.lt_of_not_le hroom)
  · cases h

theorem step_of_reaped {i : ℕ} (hreaping : s.acceptor = .reaping i)
    (h : Reaped maxClients s i s') : step maxClients s (.acceptor .reap) = some s' := by
  cases h with
  | joined hhandle hended => simp [step, acceptorStep, hreaping, hhandle, hended]
  | kept hhandle hrunning => simp [step, acceptorStep, hreaping, hhandle, hrunning]
  | full hlength hfull =>
      simp [step, acceptorStep, hreaping, List.getElem?_eq_none hlength, hfull]
  | spawned hlength hroom =>
      simp [step, acceptorStep, hreaping, List.getElem?_eq_none hlength, hroom]

/-- The other steps of the acceptor leave the handles alone, and a pass starts with the
lock. -/
theorem quiet_of_step {action : AcceptorAction} (h : acceptorStep maxClients s action = some s')
    (haction : action ≠ .reap) :
    s'.handles = s.handles ∧ s'.phase = s.phase ∧ s'.spawned = s.spawned ∧ s'.drop = s.drop ∧
      s'.acceptor ≠ .refusing ∧
      ∀ i, s'.acceptor = .reaping i →
        action = .lock ∧ i = 0 ∧ ∀ handle, s.drop ≠ .joining handle := by
  cases action with
  | reap => exact absurd rfl haction
  | accept | acceptWakeUp =>
      simp only [acceptorStep] at h
      split at h <;> cases h
      simp
  | load =>
      simp only [acceptorStep] at h
      split at h <;> cases h
      cases s.terminated <;> simp
  | refused ok =>
      simp only [acceptorStep] at h
      split at h <;> cases h
      cases ok <;> simp
  | lock =>
      simp only [acceptorStep] at h
      split at h <;> cases h
      next hdrop => exact ⟨rfl, rfl, rfl, rfl, by simp, fun i hi => ⟨rfl, by simp_all, hdrop⟩⟩

theorem Tracked.acceptor {action : AcceptorAction} (h : Tracked maxClients s)
    (hstep : acceptorStep maxClients s action = some s') : Tracked maxClients s' := by
  obtain ⟨nodup, spawned, running, few, exclusive⟩ := h
  by_cases haction : action = .reap
  · subst haction
    obtain ⟨i, hreaping, hreaped⟩ := reaped_of_step hstep
    have hdrop : ∀ handle, s.drop ≠ .joining handle := exclusive (.inl ⟨i, hreaping⟩)
    cases hreaped with
    -- the handle is taken out, and its thread has finished
    | @joined handle hhandle hended =>
        have hperm : s.unjoined.Perm (handle :: (swapRemove s.handles i ++ s.drop.popped)) :=
          (perm_swapRemove hhandle).1.append_right _
        refine ⟨(List.nodup_cons.mp (hperm.nodup_iff.mp nodup)).2, ?_, ?_, ?_, fun _ => hdrop⟩
        · exact fun t ht => spawned t (hperm.mem_iff.mpr (List.mem_cons_of_mem _ ht))
        · intro t ht
          have hne : t ≠ handle := by
            rintro rfl
            exact ht.2 hended
          exact (List.mem_cons.mp (hperm.mem_iff.mp (running t ht))).resolve_left hne
        · rw [hperm.length_eq, List.length_cons] at few
          exact (Nat.le_succ _).trans few
    | kept => exact ⟨nodup, spawned, running, few, fun _ => hdrop⟩
    | full => exact ⟨nodup, spawned, running, few, fun _ => hdrop⟩
    -- the vector has room for the new handle
    | spawned hlength hroom =>
        have hpopped : s.drop.popped = [] := by
          unfold Drop.popped
          split
          · next handle hjoining => exact absurd hjoining (hdrop _)
          · rfl
        have hunjoined : s.unjoined = s.handles := by
          rw [Server.unjoined, hpopped, List.append_nil]
        rw [hunjoined] at nodup spawned running few
        have hnew : s.spawned ∉ s.handles := fun hmem => Nat.lt_irrefl _ (spawned _ hmem)
        have hunjoined' : s.handles ++ [s.spawned] ++ s.drop.popped = s.handles ++ [s.spawned] := by
          rw [hpopped, List.append_nil]
        refine ⟨?_, ?_, ?_, ?_, by simp⟩
        · change (s.handles ++ [s.spawned] ++ s.drop.popped).Nodup
          rw [hunjoined', List.nodup_append]
          refine ⟨nodup, by simp, ?_⟩
          rintro t ht u hu rfl
          exact hnew (List.mem_singleton.mp hu ▸ ht)
        · change ∀ t ∈ s.handles ++ [s.spawned] ++ s.drop.popped, t < s.spawned + 1
          intro t ht
          rw [hunjoined'] at ht
          rcases List.mem_append.mp ht with ht | ht
          · exact Nat.lt_succ_of_lt (spawned t ht)
          · rw [List.mem_singleton.mp ht]
            exact Nat.lt_succ_self _
        · intro t ht
          change t ∈ s.handles ++ [s.spawned] ++ s.drop.popped
          rw [hunjoined']
          by_cases hold : t = s.spawned
          · simp [hold]
          · simp only [Server.setPhase_phase, hold, if_false] at ht
            exact List.mem_append_left _ (running t ht)
        · change (s.handles ++ [s.spawned] ++ s.drop.popped).length ≤ maxClients
          rw [hunjoined', List.length_append]
          exact hroom
  -- the other steps of the acceptor leave the handles alone
  · obtain ⟨hhandles, hphase, hspawned, hdrop, hrefusing, hreaping⟩ := quiet_of_step hstep haction
    have hunjoined : s'.unjoined = s.unjoined := by
      rw [Server.unjoined, Server.unjoined, hhandles, hdrop]
    refine ⟨hunjoined ▸ nodup, ?_, ?_, hunjoined ▸ few, ?_⟩
    · rwa [hunjoined, hspawned]
    · rwa [hunjoined, hphase]
    · rintro (⟨i, hi⟩ | hfull)
      · rw [hdrop]
        exact (hreaping i hi).2.2
      · exact absurd hfull hrefusing

/-- The drop takes the handles one by one, and joins threads that have finished. -/
theorem unjoined_of_drop {action : DropAction} (h : dropStep s action = some s') :
    (s'.unjoined = s.unjoined ∨
      ∃ handle, s.unjoined = s'.unjoined ++ [handle] ∧ s.phase handle = .ended) ∧
    ∀ handle, s'.drop = .joining handle → (∃ handle, s.drop = .joining handle) ∨
      (∀ i, s.acceptor ≠ .reaping i) ∧ s.acceptor ≠ .refusing := by
  cases action with
  | pop =>
      simp only [dropStep] at h
      split at h <;> cases h
      · next handle hdrop hlast =>
          obtain ⟨front, hfront⟩ := List.getLast?_eq_some_iff.mp hlast
          simp [Server.unjoined, Drop.popped, hdrop, hfront]
      · next hdrop hlast =>
          simp [Server.unjoined, Drop.popped, hdrop]
  | join =>
      simp only [dropStep] at h
      split at h
      · next handle hdrop =>
          split at h <;> cases h
          next hended =>
            refine ⟨.inr ⟨handle, ?_, hended⟩, fun _ _ => .inl ⟨_, hdrop⟩⟩
            simp [Server.unjoined, Drop.popped, hdrop]
      · cases h
  | lockHandles =>
      simp only [dropStep] at h
      split at h <;> cases h
      next hdrop hreaping hrefusing =>
        refine ⟨.inl ?_, fun _ _ => .inr ⟨?_, ?_⟩⟩
        · simp [Server.unjoined, Drop.popped, hdrop]
        · simpa using hreaping
        · simpa using hrefusing
  | start | connect | joinAcceptor | readTable | close =>
      simp only [dropStep] at h
      (repeat' split at h) <;> cases h <;> simp_all [Server.unjoined, Drop.popped]

/-- The drop leaves the handles alone until it has acquired them. -/
theorem handles_of_drop {action : DropAction} (h : dropStep s action = some s')
    (hdrop : ∀ handle, s.drop ≠ .joining handle) : s'.handles = s.handles := by
  cases action with
  | pop =>
      simp only [dropStep] at h
      split at h <;> cases h
      · next handle hjoining _ => exact absurd hjoining (hdrop _)
      · rfl
  | start | connect | joinAcceptor | readTable | close | lockHandles | join =>
      simp only [dropStep] at h
      (repeat' split at h) <;> cases h <;> rfl

theorem Tracked.drop {action : DropAction} (h : Tracked maxClients s)
    (hstep : dropStep s action = some s') : Tracked maxClients s' := by
  obtain ⟨nodup, spawned, running, few, exclusive⟩ := h
  obtain ⟨-, hphase, hspawned, hacceptor⟩ := drop_frame hstep
  obtain ⟨hunjoined, hjoining⟩ := unjoined_of_drop hstep
  -- the drop and the acceptor do not have the vector at the same time
  have hexclusive : (∃ i, s'.acceptor = .reaping i) ∨ s'.acceptor = .refusing →
      ∀ handle, s'.drop ≠ .joining handle := by
    intro hbusy handle hdrop
    rw [hacceptor] at hbusy
    rcases hjoining handle hdrop with ⟨other, hother⟩ | ⟨hreaping, hrefusing⟩
    · exact exclusive hbusy other hother
    · rcases hbusy with ⟨i, hi⟩ | hfull
      · exact hreaping i hi
      · exact hrefusing hfull
  rcases hunjoined with hsame | ⟨handle, hsame, hended⟩
  · exact ⟨hsame ▸ nodup, by rwa [hsame, hspawned], by rwa [hsame, hphase], hsame ▸ few,
      hexclusive⟩
  · rw [hsame] at nodup spawned running few
    refine ⟨(List.nodup_append.mp nodup).1, ?_, ?_, ?_, hexclusive⟩
    · intro t ht
      rw [hspawned]
      exact spawned t (List.mem_append_left _ ht)
    · intro t ht
      rw [hphase] at ht
      have hne : t ∉ [handle] := by
        intro hmem
        rw [List.mem_singleton.mp hmem] at ht
        exact ht.2 hended
      exact (List.mem_append.mp (running t ht)).resolve_right hne
    · rw [List.length_append] at few
      exact (Nat.le_add_right _ _).trans few

end Steps

theorem tracked_of_run {maxClients : ℕ} {trace : List (Server × Label)} {s : Server}
    (hrun : Run (Fires (step maxClients)) Server.init trace s) : Tracked maxClients s := by
  refine hrun.invariant ?_ ?_
  · constructor <;> simp [Server.init, Server.unjoined, Drop.popped, Phase.Running]
  · intro s l s' h hstep
    cases l with
    | handler t action => exact h.handler (moved_of_handlerStep hstep)
    | acceptor action => exact h.acceptor hstep
    | drop action => exact h.drop hstep

/-! ## One pass -/

/-- What the acceptor has seen since it acquired the handles. -/
structure Pass where
  /-- the handles it found -/
  handles : List ThreadId
  /-- those it saw finished, and joined -/
  finished : List ThreadId
  /-- those it saw unfinished -/
  unfinished : List ThreadId
  deriving DecidableEq, Repr

/-- The handles that the pass has looked at. -/
def Pass.looks (pass : Pass) : ℕ := pass.finished.length + pass.unfinished.length

/-- What a step adds to the pass. -/
def Pass.look (pass : Pass) (s : Server) : Label → Pass
  | .acceptor .lock => ⟨s.handles, [], []⟩
  | .acceptor .reap =>
      match s.acceptor with
      | .reaping i =>
          match s.handles[i]? with
          | some handle =>
              if s.phase handle = .ended then
                { pass with finished := pass.finished ++ [handle] }
              else { pass with unfinished := pass.unfinished ++ [handle] }
          | none => pass
      | _ => pass
  | _ => pass

/-- The last pass of a run. -/
def lastPass (trace : List (Server × Label)) : Pass :=
  trace.foldl (fun pass p => pass.look p.1 p.2) ⟨[], [], []⟩

private theorem lastPass_snoc (trace : List (Server × Label)) (s : Server) (l : Label) :
    lastPass (trace ++ [(s, l)]) = (lastPass trace).look s l := by
  simp [lastPass]

/-- The pass has seen the handles in front of index `i`, and those it has joined. -/
structure Passing (pass : Pass) (s : Server) (i : ℕ) : Prop where
  distinct : pass.handles.Nodup
  partition : pass.handles.Perm (pass.finished ++ s.handles)
  unfinished : pass.unfinished = s.handles.take i
  inside : i ≤ s.handles.length

section Passes

variable {maxClients : ℕ} {trace : List (Server × Label)} {s s' : Server} {i : ℕ} {pass : Pass}

theorem Passing.looks_le (h : Passing pass s i) : pass.looks ≤ pass.handles.length := by
  have hlength := h.partition.length_eq
  rw [List.length_append] at hlength
  rw [Pass.looks, h.unfinished, List.length_take, Nat.min_eq_left h.inside, hlength]
  have := h.inside
  omega

theorem Passing.congr (h : Passing pass s i) (hhandles : s'.handles = s.handles) :
    Passing pass s' i :=
  ⟨h.distinct, hhandles ▸ h.partition, hhandles ▸ h.unfinished, hhandles ▸ h.inside⟩

/-- A look at a thread that has finished. -/
theorem Passing.joined (h : Passing pass s i) {handle : ThreadId}
    (hhandle : s.handles[i]? = some handle) :
    Passing { pass with finished := pass.finished ++ [handle] }
      { s with handles := swapRemove s.handles i } i := by
  obtain ⟨distinct, partition, unfinished, inside⟩ := h
  obtain ⟨hperm, htake⟩ := perm_swapRemove hhandle
  refine ⟨distinct, ?_, by rw [htake]; exact unfinished, ?_⟩
  · calc pass.handles
        |>.Perm (pass.finished ++ s.handles) := partition
      _ |>.Perm (pass.finished ++ handle :: swapRemove s.handles i) := hperm.append_left _
      _ |>.Perm (pass.finished ++ [handle] ++ swapRemove s.handles i) := by simp
  · have hlength := hperm.length_eq
    obtain ⟨hi, -⟩ := List.getElem?_eq_some_iff.mp hhandle
    rw [List.length_cons] at hlength
    change i ≤ (swapRemove s.handles i).length
    omega

/-- A look at a thread that runs. -/
theorem Passing.kept (h : Passing pass s i) {handle : ThreadId}
    (hhandle : s.handles[i]? = some handle) :
    Passing { pass with unfinished := pass.unfinished ++ [handle] }
      { s with acceptor := .reaping (i + 1) } (i + 1) := by
  obtain ⟨distinct, partition, unfinished, inside⟩ := h
  obtain ⟨hi, -⟩ := List.getElem?_eq_some_iff.mp hhandle
  refine ⟨distinct, partition, ?_, hi⟩
  rw [List.take_add_one, hhandle, ← unfinished]
  rfl

/-! ## A pass seen from the trace -/

/-- What the last pass has come to. -/
structure Surveyed (maxClients : ℕ) (pass : Pass) (s : Server) : Prop where
  reaping : ∀ i, s.acceptor = .reaping i → Passing pass s i
  refusing : s.acceptor = .refusing →
    Passing pass s s.handles.length ∧ maxClients ≤ s.handles.length

theorem Surveyed.congr (h : Surveyed maxClients pass s) (hacceptor : s'.acceptor = s.acceptor)
    (hhandles : (∃ i, s.acceptor = .reaping i) ∨ s.acceptor = .refusing →
      s'.handles = s.handles) : Surveyed maxClients pass s' := by
  constructor
  · intro i hi
    rw [hacceptor] at hi
    exact (h.reaping i hi).congr (hhandles (.inl ⟨i, hi⟩))
  · intro hfull
    rw [hacceptor] at hfull
    have hsame := hhandles (.inr hfull)
    rw [hsame]
    exact ⟨(h.refusing hfull).1.congr hsame, (h.refusing hfull).2⟩

/-- **One look** goes on with the pass, or ends it with all handles seen unfinished. -/
theorem Surveyed.reap (h : Surveyed maxClients pass s) (hreaping : s.acceptor = .reaping i)
    (hreaped : Reaped maxClients s i s') :
    Surveyed maxClients (pass.look s (.acceptor .reap)) s' := by
  have hpassing := h.reaping i hreaping
  cases hreaped with
  | @joined handle hhandle hended =>
      have hlook : pass.look s (.acceptor .reap) =
          { pass with finished := pass.finished ++ [handle] } := by
        simp [Pass.look, hreaping, hhandle, hended]
      rw [hlook]
      refine ⟨fun j hj => ?_, fun hfull => ?_⟩
      · obtain rfl : i = j := by simpa using hreaping.symm.trans hj
        exact hpassing.joined hhandle
      · cases hreaping.symm.trans hfull
  | @kept handle hhandle hrunning =>
      have hlook : pass.look s (.acceptor .reap) =
          { pass with unfinished := pass.unfinished ++ [handle] } := by
        simp [Pass.look, hreaping, hhandle, hrunning]
      rw [hlook]
      refine ⟨fun j hj => ?_, by simp⟩
      cases hj
      exact hpassing.kept hhandle
  | full hlength hfull =>
      have hlook : pass.look s (.acceptor .reap) = pass := by
        simp [Pass.look, hreaping, List.getElem?_eq_none hlength]
      rw [hlook]
      -- the pass has come to the end of the vector
      have hi : i = s.handles.length := le_antisymm hpassing.inside hlength
      exact ⟨by simp, fun _ => ⟨hi ▸ hpassing.congr rfl, hfull⟩⟩
  | spawned => exact ⟨by simp, by simp⟩

theorem surveyed_of_run (hrun : Run (Fires (step maxClients)) Server.init trace s) :
    Surveyed maxClients (lastPass trace) s := by
  refine hrun.invariantTrace (I := fun trace s => Surveyed maxClients (lastPass trace) s) ?_ ?_
  · constructor <;> simp [Server.init]
  · intro trace s l s' hrun h hstep
    have htracked := tracked_of_run hrun
    rw [lastPass_snoc]
    cases l with
    | handler t action =>
        have hmoved := moved_of_handlerStep hstep
        exact h.congr hmoved.acceptor fun _ => hmoved.handles
    | drop action =>
        exact h.congr (drop_frame hstep).2.2.2 fun hbusy =>
          handles_of_drop hstep (htracked.exclusive hbusy)
    | acceptor action =>
        by_cases haction : action = .reap
        · subst haction
          obtain ⟨i, hreaping, hreaped⟩ := reaped_of_step hstep
          exact h.reap hreaping hreaped
        · obtain ⟨hhandles, -, -, -, hrefusing, hlock⟩ := quiet_of_step hstep haction
          refine ⟨fun i hi => ?_, fun hfull => absurd hfull hrefusing⟩
          obtain ⟨rfl, rfl, hdrop⟩ := hlock i hi
          have hdistinct : s.handles.Nodup := (List.nodup_append.mp htracked.nodup).1
          exact ⟨hdistinct, by simp [Pass.look, hhandles], by simp [Pass.look], Nat.zero_le _⟩

/-! ## Every pass -/

/-- **The acceptor keeps track of the threads.**  No more than `max_clients` handler
threads are unfinished.  In a pass, the handles seen finished are the ones taken out, all
others stay, and every look is at a handle not seen yet, so the pass comes to an end.  A
connection is refused only if `max_clients` threads were each seen unfinished in this pass. -/
theorem acceptor_reaps (hrun : Run (Fires (step maxClients)) Server.init trace s) :
    (∀ ts : Finset ThreadId, (∀ t ∈ ts, (s.phase t).Running) → ts.card ≤ maxClients) ∧
    (∀ i, s.acceptor = .reaping i →
      Passing (lastPass trace) s i ∧ (lastPass trace).looks ≤ (lastPass trace).handles.length ∧
      ∃ s', step maxClients s (.acceptor .reap) = some s' ∧
        ((∃ j, s'.acceptor = .reaping j ∧
            (lastPass (trace ++ [(s, .acceptor .reap)])).looks = (lastPass trace).looks + 1) ∨
          (∀ j, s'.acceptor ≠ .reaping j) ∧ (lastPass trace).unfinished = s.handles ∧
            s.handles <+: s'.handles)) ∧
    (s.acceptor = .refusing →
      (lastPass trace).handles.Perm ((lastPass trace).finished ++ s.handles) ∧
      (lastPass trace).unfinished = s.handles ∧ s.handles.Nodup ∧
      s.handles.length = maxClients) := by
  have htracked := tracked_of_run hrun
  have hsurveyed := surveyed_of_run hrun
  refine ⟨fun ts hts => ?_, fun i hreaping => ?_, fun hfull => ?_⟩
  -- every thread that runs has a handle
  · have hsubset : ts ⊆ s.unjoined.toFinset := fun t ht =>
      List.mem_toFinset.mpr (htracked.running t (hts t ht))
    calc ts.card
        ≤ s.unjoined.toFinset.card := Finset.card_le_card hsubset
      _ ≤ s.unjoined.length := List.toFinset_card_le _
      _ ≤ maxClients := htracked.few
  · have hpassing := hsurveyed.reaping i hreaping
    refine ⟨hpassing, hpassing.looks_le, ?_⟩
    rw [lastPass_snoc]
    cases hhandle : s.handles[i]? with
    | some handle =>
        by_cases hended : s.phase handle = .ended
        · refine ⟨_, step_of_reaped hreaping (.joined hhandle hended), .inl ⟨i, hreaping, ?_⟩⟩
          simp only [Pass.look, hreaping, hhandle, hended, if_true, Pass.looks, List.length_append,
            List.length_singleton]
          omega
        · refine ⟨_, step_of_reaped hreaping (.kept hhandle hended), .inl ⟨i + 1, rfl, ?_⟩⟩
          simp only [Pass.look, hreaping, hhandle, hended, if_false, Pass.looks, List.length_append,
            List.length_singleton]
          omega
    -- no handle is left to look at
    | none =>
        have hlength : s.handles.length ≤ i := List.getElem?_eq_none_iff.mp hhandle
        have hall : (lastPass trace).unfinished = s.handles := by
          rw [hpassing.unfinished, List.take_of_length_le hlength]
        rcases Nat.lt_or_ge s.handles.length maxClients with hroom | hfull
        · exact ⟨_, step_of_reaped hreaping (.spawned hlength hroom),
            .inr ⟨by simp, hall, List.prefix_append _ _⟩⟩
        · exact ⟨_, step_of_reaped hreaping (.full hlength hfull),
            .inr ⟨by simp, hall, List.prefix_rfl⟩⟩
  · obtain ⟨hpassing, hfull⟩ := hsurveyed.refusing hfull
    have hunfinished : (lastPass trace).unfinished = s.handles := by
      rw [hpassing.unfinished, List.take_length]
    have hfew : s.handles.length ≤ maxClients := by
      have := htracked.few
      rw [Server.unjoined, List.length_append] at this
      omega
    exact ⟨hpassing.partition, hunfinished, (List.nodup_append.mp htracked.nodup).1,
      le_antisymm hfew hfull⟩

/-- Two clients are served, the handler of the first ends, and the pass for a third one
moves the second handle to the front. -/
theorem acceptor_reaps_herd :
    ∃ trace s, Run (Fires (step 2)) Server.init trace s ∧ s.acceptor = .reaping 0 ∧
      lastPass trace = ⟨[0, 1], [0], []⟩ ∧ s.handles = [1] ∧ Passing (lastPass trace) s 0 := by
  obtain ⟨trace, s, hrun, hp⟩ := exists_run_of_replay (step 2) Server.init
    (connects 0 ++ connects 1 ++ [.handler 0 (.read .err), .acceptor .accept, .acceptor .load,
      .acceptor .lock, .acceptor .reap])
    (fun r => decide (r.2.acceptor = .reaping 0 ∧ lastPass r.1 = ⟨[0, 1], [0], []⟩ ∧
      r.2.handles = [1]))
    (by decide +kernel)
  obtain ⟨hreaping, hpass, hhandles⟩ := of_decide_eq_true hp
  exact ⟨trace, s, hrun, hreaping, hpass, hhandles, ((acceptor_reaps hrun).2.1 0 hreaping).1⟩

end Passes

end RustCourse.Lesson08
