import Mathlib.Data.List.Forall2
import RustCourse.Lib.Slice
import RustCourse.Lib.Transition
import RustCourse.Lib.Word

/-!
# The parallel sum

`parallel_slice_sum` of `lessons/07/exercises/tests/01_parallel_sum.rs`: a slice that is
short for its number of threads is summed at once; else every chunk gets a thread, and the
results are added up in the order of the handles.  The threads run in any order
(`Step`), each step is labelled with the addition it makes, and an addition may overflow.

What has been added up and what is still to add make up the sum of the slice (`Invariant`),
so no addition overflows if the sum fits.  The arithmetic that may overflow even so is
`2 * threads`.

## Strategy

Every run ends, since each step lowers a rank, and it cannot stop before (`progress`), so the
result of a call is that of its last state.  The invariant splits the sum into what the workers
have, what the caller has and what is left; the three are never more than the sum, so an
addition that overflows shows that the sum does not fit.
-/

namespace RustCourse.Lesson07.ParallelSum

open Transition

/-! ## The function -/

/-- A thread that sums up its chunk, with what is left of it. -/
inductive Worker
  | running (rest : List UInt64) (acc : UInt64)
  | finished (result : UInt64)
  | panicked

/-- Where the caller is. -/
inductive Main
  /-- in `items.iter().sum()` -/
  | summing (rest : List UInt64) (acc : UInt64)
  /-- in the loop over the chunks -/
  | spawning (chunks : List (List UInt64))
  /-- in the loop over the handles, at the one with this index -/
  | joining (handle : ℕ) (sum : UInt64)
  | done (sum : UInt64)
  | panicked

/-- The caller and the threads it has spawned, in the order of their handles. -/
structure State where
  main : Main
  workers : List Worker

/-- How the slice is going to be summed up. -/
inductive Path
  | sequential
  | parallel (itemsPerThread : ℕ)
  /-- `2 * threads` overflows, or a division by 0 -/
  | panics
  deriving DecidableEq, Repr

variable (build : Build) (items : List UInt64) (threads : UInt64)

def path : Path :=
  match build.mul64 2 threads with
  | none => .panics
  | some limit =>
      if items.length < limit.toNat then .sequential
      else if threads = 0 then .panics
      else .parallel (items.length / threads.toNat)

/-- The first state of a call; `chunks` asserts that its argument is not 0. -/
def init : State :=
  match path build items threads with
  | .sequential => ⟨.summing items 0, []⟩
  | .parallel 0 | .panics => ⟨.panicked, []⟩
  | .parallel itemsPerThread => ⟨.spawning (Slice.chunks itemsPerThread items), []⟩

/-- The operands of an addition, for the steps that make one. -/
abbrev Label := Option (UInt64 × UInt64)

/-- A step of the caller or of a thread.  A `join` waits for the thread, and unwraps its panic. -/
inductive Step (build : Build) : State → Label → State → Prop
  | add {x rest acc ws} : Step build ⟨.summing (x :: rest) acc, ws⟩ (some (acc, x))
      ⟨(build.add64 acc x).elim .panicked (.summing rest), ws⟩
  | summed {acc ws} : Step build ⟨.summing [] acc, ws⟩ none ⟨.done acc, ws⟩
  | spawn {chunk chunks ws} : Step build ⟨.spawning (chunk :: chunks), ws⟩ none
      ⟨.spawning chunks, ws ++ [.running chunk 0]⟩
  | spawned {ws} : Step build ⟨.spawning [], ws⟩ none ⟨.joining 0 0, ws⟩
  | work {main ws k x rest acc} : ws[k]? = some (.running (x :: rest) acc) →
      Step build ⟨main, ws⟩ (some (acc, x))
        ⟨main, ws.set k ((build.add64 acc x).elim .panicked (.running rest))⟩
  | finish {main ws k acc} : ws[k]? = some (.running [] acc) →
      Step build ⟨main, ws⟩ none ⟨main, ws.set k (.finished acc)⟩
  | join {ws k sum result} : ws[k]? = some (.finished result) →
      Step build ⟨.joining k sum, ws⟩ (some (sum, result))
        ⟨(build.add64 sum result).elim .panicked (.joining (k + 1)), ws⟩
  | joinPanics {ws k sum} : ws[k]? = some .panicked →
      Step build ⟨.joining k sum, ws⟩ none ⟨.panicked, ws⟩
  | joined {ws k sum} : ws.length ≤ k → Step build ⟨.joining k sum, ws⟩ none ⟨.done sum, ws⟩

/-! ## Sums -/

/-- The mathematical sum. -/
def total (xs : List UInt64) : ℕ := (xs.map UInt64.toNat).sum

@[simp] theorem total_nil : total [] = 0 := rfl

@[simp] theorem total_cons (x : UInt64) (xs : List UInt64) :
    total (x :: xs) = x.toNat + total xs := by
  simp [total]

theorem total_append (xs ys : List UInt64) : total (xs ++ ys) = total xs + total ys := by
  simp [total]

/-! ## The invariant -/

/-- What the thread of a chunk has added up and what is left is the chunk. -/
def Sums (chunk : List UInt64) : Worker → Prop
  | .running rest acc => acc.toNat + total rest = total chunk
  | .finished result => result.toNat = total chunk
  | .panicked => False

/-- What has been added up and what is left is the slice, where `chunks` are those of the threads
spawned so far. -/
def Remains (items : List UInt64) (chunks : List (List UInt64)) : Main → Prop
  | .summing rest acc => acc.toNat + total rest = total items
  | .spawning more => (chunks ++ more).flatten = items
  | .joining handle sum => chunks.flatten = items ∧ sum.toNat = total (chunks.take handle).flatten
  | .done sum => sum.toNat = total items
  | .panicked => False

structure Invariant (items : List UInt64) (chunks : List (List UInt64)) (s : State) : Prop where
  main : Remains items chunks s.main
  workers : List.Forall₂ Sums chunks s.workers
  within : total chunks.flatten ≤ total items

section Workers

variable {chunks : List (List UInt64)} {workers : List Worker} {k : ℕ} {worker worker' : Worker}

theorem exists_chunk (h : List.Forall₂ Sums chunks workers) (hk : workers[k]? = some worker) :
    ∃ chunk, chunks[k]? = some chunk ∧ Sums chunk worker := by
  induction h generalizing k with
  | nil => exact nomatch hk
  | @cons chunk _ _ _ hfirst _ ih =>
      cases k with
      | zero =>
          cases hk
          exact ⟨chunk, rfl, hfirst⟩
      | succ k => exact ih hk

private theorem sums_set (h : List.Forall₂ Sums chunks workers) (hk : workers[k]? = some worker)
    (hsums : ∀ chunk, Sums chunk worker → Sums chunk worker') :
    List.Forall₂ Sums chunks (workers.set k worker') := by
  induction h generalizing k with
  | nil => exact .nil
  | cons hfirst hrest ih =>
      cases k with
      | zero =>
          cases hk
          exact .cons (hsums _ hfirst) hrest
      | succ k => exact .cons hfirst (ih hk)

theorem total_le_of_getElem? {chunk : List UInt64} (hk : chunks[k]? = some chunk) :
    total (chunks.take k).flatten + total chunk = total (chunks.take (k + 1)).flatten ∧
      total (chunks.take (k + 1)).flatten ≤ total chunks.flatten := by
  constructor
  · rw [List.take_add_one, hk, Option.toList_some, List.flatten_append, total_append,
      List.flatten_singleton]
  · conv_rhs => rw [← List.take_append_drop (k + 1) chunks, List.flatten_append, total_append]
    exact Nat.le_add_right _ _

end Workers

variable {build : Build} {items : List UInt64} {chunks : List (List UInt64)} {s s' : State}
  {l : Label}

/-- **The step lemma**: nothing gets lost, and no addition overflows. -/
theorem Invariant.step (hsum : total items < 2 ^ 64) (h : Invariant items chunks s)
    (hstep : Step build s l s') :
    (∃ chunks', Invariant items chunks' s') ∧
      ∀ a b, l = some (a, b) → a.toNat + b.toNat < 2 ^ 64 := by
  obtain ⟨hmain, hworkers, hwithin⟩ := h
  cases hstep with
  -- the caller adds an item
  | @add x rest acc ws =>
      simp only [Remains, total_cons] at hmain
      have hfits : acc.toNat + x.toNat < 2 ^ 64 := by omega
      obtain ⟨acc', hadd, hacc⟩ := Build.exists_add64 build hfits
      refine ⟨⟨chunks, ?_, hworkers, hwithin⟩, ?_⟩
      · rw [hadd]
        show acc'.toNat + total rest = total items
        omega
      · rintro a b ⟨⟩
        exact hfits
  | summed =>
      refine ⟨⟨chunks, ?_, hworkers, hwithin⟩, nofun⟩
      simpa [Remains] using hmain
  -- a thread takes the first of the chunks that are left
  | @spawn chunk more ws =>
      have hflatten : (chunks ++ chunk :: more).flatten = items := hmain
      refine ⟨⟨chunks ++ [chunk], ?_, ?_, ?_⟩, nofun⟩
      · show (chunks ++ [chunk] ++ more).flatten = items
        rwa [List.append_assoc, List.singleton_append]
      · refine List.rel_append hworkers (.cons ?_ .nil)
        show (0 : UInt64).toNat + total chunk = total chunk
        simp
      · have hsplit : total items = total (chunks ++ [chunk]).flatten + total more.flatten := by
          rw [← hflatten, List.append_cons, List.flatten_append, total_append]
        rw [hsplit]
        exact Nat.le_add_right _ _
  | spawned =>
      refine ⟨⟨chunks, ⟨?_, rfl⟩, hworkers, hwithin⟩, nofun⟩
      simpa [Remains] using hmain
  -- a thread adds an item of its chunk, which is a part of the slice
  | @work main ws k x rest acc hk =>
      obtain ⟨chunk, hchunk, hsums⟩ := exists_chunk hworkers hk
      obtain ⟨htake, hle⟩ := total_le_of_getElem? hchunk
      have hleft : acc.toNat + (x.toNat + total rest) = total chunk := hsums
      have hfits : acc.toNat + x.toNat < 2 ^ 64 := by omega
      obtain ⟨acc', hadd, hacc⟩ := Build.exists_add64 build hfits
      refine ⟨⟨chunks, hmain, sums_set hworkers hk fun chunk' hchunk' => ?_, hwithin⟩, ?_⟩
      · have hleft' : acc.toNat + (x.toNat + total rest) = total chunk' := hchunk'
        rw [hadd]
        show acc'.toNat + total rest = total chunk'
        omega
      · rintro a b ⟨⟩
        exact hfits
  | @finish main ws k acc hk =>
      refine ⟨⟨chunks, hmain, sums_set hworkers hk fun chunk hchunk => ?_, hwithin⟩, nofun⟩
      simpa [Sums] using hchunk
  -- the caller adds the sum of a chunk to those of the chunks before it
  | @join ws k sum result hk =>
      obtain ⟨hflatten, hjoined⟩ := hmain
      obtain ⟨chunk, hchunk, hresult⟩ := exists_chunk hworkers hk
      obtain ⟨htake, hle⟩ := total_le_of_getElem? hchunk
      have hresult : result.toNat = total chunk := hresult
      have hfits : sum.toNat + result.toNat < 2 ^ 64 := by omega
      obtain ⟨sum', hadd, hsum'⟩ := Build.exists_add64 build hfits
      refine ⟨⟨chunks, ?_, hworkers, hwithin⟩, ?_⟩
      · rw [hadd]
        exact ⟨hflatten, by omega⟩
      · rintro a b ⟨⟩
        exact hfits
  | @joinPanics ws k sum hk =>
      obtain ⟨chunk, -, hsums⟩ := exists_chunk hworkers hk
      exact hsums.elim
  | @joined ws k sum hk =>
      obtain ⟨hflatten, hjoined⟩ := hmain
      refine ⟨⟨chunks, ?_, hworkers, hwithin⟩, nofun⟩
      have hall : chunks.length ≤ k := hworkers.length_eq ▸ hk
      rwa [List.take_of_length_le hall, hflatten] at hjoined

/-! ## Every run comes to its end -/

/-- The steps that the worker has still to take. -/
def Worker.rank : Worker → ℕ
  | running rest _ => rest.length + 1
  | finished _ | panicked => 0

/-- The steps of the caller, and those of the threads it has not spawned yet. -/
def Main.rank (spawned : ℕ) : Main → ℕ
  | summing rest _ => rest.length + 1
  | spawning chunks => (chunks.map fun chunk => chunk.length + 3).sum + spawned + 2
  | joining handle _ => spawned - handle + 1
  | done _ | panicked => 0

/-- The steps that the main thread and the workers have still to take. -/
def State.rank (s : State) : ℕ := s.main.rank s.workers.length + (s.workers.map Worker.rank).sum

private theorem sum_rank_set {workers : List Worker} {k : ℕ} {worker worker' : Worker}
    (hk : workers[k]? = some worker) (hlt : worker'.rank < worker.rank) :
    ((workers.set k worker').map Worker.rank).sum < (workers.map Worker.rank).sum := by
  induction workers generalizing k with
  | nil => exact nomatch hk
  | cons first rest ih =>
      cases k with
      | zero =>
          cases hk
          exact Nat.add_lt_add_right hlt _
      | succ k => exact Nat.add_lt_add_left (ih hk) _

theorem rank_lt_of_step (hstep : Step build s l s') : s'.rank < s.rank := by
  cases hstep with
  | @add x rest acc ws => cases build.add64 acc x <;> simp [State.rank, Main.rank]
  | summed => simp [State.rank, Main.rank]
  | @spawn chunk more ws =>
      simp only [State.rank, Main.rank, Worker.rank, List.map_append, List.map_cons, List.map_nil,
        List.sum_append, List.sum_cons, List.sum_nil, List.length_append, List.length_cons,
        List.length_nil]
      omega
  | spawned => simp [State.rank, Main.rank]
  -- whether the addition panics or not, the worker has one item less to go
  | @work main ws k x rest acc hk =>
      have hlt : ((build.add64 acc x).elim Worker.panicked (Worker.running rest)).rank <
          (Worker.running (x :: rest) acc).rank := by
        cases build.add64 acc x <;> simp [Worker.rank]
      have hset := sum_rank_set hk hlt
      simp only [State.rank, List.length_set]
      omega
  | @finish main ws k acc hk =>
      have hset := sum_rank_set hk (show (Worker.finished acc).rank < _ from Nat.succ_pos _)
      simp only [State.rank, List.length_set]
      omega
  | @join ws k sum result hk =>
      have hlt := (List.getElem?_eq_some_iff.mp hk).1
      cases build.add64 sum result with
      | none => simp [State.rank, Main.rank]
      | some sum' =>
          simp only [State.rank, Main.rank, Option.elim_some]
          omega
  | joinPanics => simp [State.rank, Main.rank]
  | joined => simp [State.rank, Main.rank]

theorem length_le_rank {trace : List (State × Label)} (hrun : Run (Step build) s trace s') :
    trace.length + s'.rank ≤ s.rank := by
  refine hrun.invariantTrace (I := fun trace t => trace.length + t.rank ≤ s.rank) (by simp) ?_
  intro trace t l u _ hle hstep
  have hlt := rank_lt_of_step hstep
  rw [List.length_append, List.length_singleton]
  omega

/-- Until the caller is done, it or a thread can go on. -/
theorem Invariant.progress (h : Invariant items chunks s) :
    (∃ sum, s.main = .done sum) ∨ ∃ l s', Step build s l s' := by
  obtain ⟨main, ws⟩ := s
  obtain ⟨hmain, hworkers, -⟩ := h
  cases main with
  | summing rest acc =>
      cases rest with
      | nil => exact .inr ⟨_, _, .summed⟩
      | cons x rest => exact .inr ⟨_, _, .add⟩
  | spawning chunks =>
      cases chunks with
      | nil => exact .inr ⟨_, _, .spawned⟩
      | cons chunk chunks => exact .inr ⟨_, _, .spawn⟩
  -- the caller joins a thread, or the thread has something left to do
  | joining k sum =>
      right
      cases hk : ws[k]? with
      | none => exact ⟨_, _, .joined (List.getElem?_eq_none_iff.mp hk)⟩
      | some worker =>
          cases worker with
          | running rest acc =>
              cases rest with
              | nil => exact ⟨_, _, .finish hk⟩
              | cons x rest => exact ⟨_, _, .work hk⟩
          | finished result => exact ⟨_, _, .join hk⟩
          | panicked => exact ⟨_, _, .joinPanics hk⟩
  | done sum => exact .inl ⟨sum, rfl⟩
  | panicked => exact hmain.elim

/-! ## The result -/

/-- The call returns the sum of the slice, whatever the order of the threads: every run comes to
its end, and there the caller is done with that sum. -/
structure ReturnsSum (build : Build) (items : List UInt64) (threads : UInt64) : Prop where
  chunkSize : path build items threads ≠ .parallel 0
  additions : ∀ trace s, Run (Step build) (init build items threads) trace s →
    ∀ p ∈ trace, ∀ a b, p.2 = some (a, b) → a.toNat + b.toNat < 2 ^ 64
  result : ∀ trace s, Run (Step build) (init build items threads) trace s →
    ∀ sum, s.main = .done sum → sum.toNat = total items
  progress : ∀ trace s, Run (Step build) (init build items threads) trace s →
    (∃ sum, s.main = .done sum) ∨ ∃ l s', Step build s l s'
  bounded : ∃ bound, ∀ trace s, Run (Step build) (init build items threads) trace s →
    trace.length ≤ bound

/-- `2 * threads` is a `usize`, or what a release build makes of it does no harm. -/
def Fits (build : Build) (items : List UInt64) (threads : UInt64) : Prop :=
  2 * threads.toNat < 2 ^ 64 ∨
    build = .release ∧
      (items.length < 2 * threads.toNat % 2 ^ 64 ∨ threads.toNat ≤ items.length)

variable {threads : UInt64}

theorem path_of_limit {limit : UInt64} (hlimit : build.mul64 2 threads = some limit)
    (hthreads : 1 ≤ threads.toNat) :
    path build items threads =
      if items.length < limit.toNat then .sequential
      else .parallel (items.length / threads.toNat) := by
  have hne : threads ≠ 0 := by
    rintro rfl
    exact absurd hthreads (by decide)
  simp only [path, hlimit, if_neg hne]

theorem path_of_fits (hthreads : 1 ≤ threads.toNat) (h : Fits build items threads) :
    path build items threads = .sequential ∨
      ∃ n, path build items threads = .parallel (n + 1) := by
  -- the chunks are not empty if there are as many items as threads
  have hparallel {limit : UInt64} (hlimit : build.mul64 2 threads = some limit)
      (hle : items.length < limit.toNat ∨ threads.toNat ≤ items.length) :
      path build items threads = .sequential ∨
        ∃ n, path build items threads = .parallel (n + 1) := by
    rw [path_of_limit hlimit hthreads]
    split
    · exact .inl rfl
    · next hge =>
        have hpos : 0 < items.length / threads.toNat :=
          Nat.div_pos (hle.resolve_left hge) hthreads
        exact .inr ⟨items.length / threads.toNat - 1, by rw [Nat.sub_add_cancel hpos]⟩
  have htwo : (2 : UInt64).toNat = 2 := rfl
  rcases h with hfits | ⟨rfl, hle⟩
  · obtain ⟨limit, hlimit, hvalue⟩ := Build.exists_mul64 (a := 2) build (htwo.symm ▸ hfits)
    rw [htwo] at hvalue
    exact hparallel hlimit (by omega)
  · obtain ⟨limit, hlimit, hvalue⟩ := Build.mul64_release 2 threads
    rw [htwo] at hvalue
    exact hparallel hlimit (hvalue ▸ hle)

theorem path_of_not_fits (hthreads : 1 ≤ threads.toNat) (h : ¬ Fits build items threads) :
    path build items threads = .panics ∨ path build items threads = .parallel 0 := by
  rw [Fits, not_or] at h
  obtain ⟨hoverflow, hwrapped⟩ := h
  have htwo : (2 : UInt64).toNat = 2 := rfl
  cases build with
  | debug =>
      left
      simp only [path, Build.mul64_debug_eq_none (htwo.symm ▸ Nat.not_lt.mp hoverflow)]
  | release =>
      right
      obtain ⟨limit, hlimit, hvalue⟩ := Build.mul64_release 2 threads
      rw [htwo] at hvalue
      have hshort : ¬ items.length < limit.toNat ∧ items.length < threads.toNat := by
        rw [hvalue]
        simpa using hwrapped
      rw [path_of_limit hlimit hthreads, if_neg hshort.1, Nat.div_eq_of_lt hshort.2]

/-! ## Runs of a call -/

private theorem invariant_init (hthreads : 1 ≤ threads.toNat) (h : Fits build items threads) :
    Invariant items [] (init build items threads) := by
  rcases path_of_fits hthreads h with hpath | ⟨n, hpath⟩
  · rw [init, hpath]
    exact ⟨by simp [Remains], .nil, Nat.zero_le _⟩
  · rw [init, hpath]
    exact ⟨Slice.flatten_chunks (Nat.succ_pos n) items, .nil, Nat.zero_le _⟩

theorem exists_invariant (hthreads : 1 ≤ threads.toNat) (hsum : total items < 2 ^ 64)
    (h : Fits build items threads) {trace : List (State × Label)}
    (hrun : Run (Step build) (init build items threads) trace s) :
    ∃ chunks, Invariant items chunks s := by
  refine hrun.invariant (I := fun s => ∃ chunks, Invariant items chunks s) ?_ ?_
  · exact ⟨[], invariant_init hthreads h⟩
  · rintro t l u ⟨chunks, hinvariant⟩ hstep
    exact (hinvariant.step hsum hstep).1

/-- A caller that panics before there is a thread is stuck. -/
theorem not_returnsSum_of_init (hinit : init build items threads = ⟨.panicked, []⟩) :
    ¬ ReturnsSum build items threads := by
  intro h
  rcases h.progress [] _ .nil with ⟨sum, hdone⟩ | ⟨l, s', hstep⟩
  · rw [hinit] at hdone
    exact nomatch hdone
  · rw [hinit] at hstep
    cases hstep with
    | work hk => exact nomatch hk
    | finish hk => exact nomatch hk

theorem returnsSum_of_fits (hthreads : 1 ≤ threads.toNat) (hsum : total items < 2 ^ 64)
    (h : Fits build items threads) : ReturnsSum build items threads where
  chunkSize hpath := by
    rcases path_of_fits hthreads h with hpath' | ⟨n, hpath'⟩
    · exact nomatch hpath.symm.trans hpath'
    · exact nomatch hpath.symm.trans hpath'
  additions trace s hrun p hp a b hab := by
    obtain ⟨before, u, -, hbefore, hstep⟩ := hrun.exists_before hp
    obtain ⟨chunks, hinvariant⟩ := exists_invariant hthreads hsum h hbefore
    exact (hinvariant.step hsum hstep).2 a b hab
  result trace s hrun sum hdone := by
    obtain ⟨chunks, hmain, -, -⟩ := exists_invariant hthreads hsum h hrun
    rw [hdone] at hmain
    exact hmain
  progress trace s hrun := by
    obtain ⟨chunks, hinvariant⟩ := exists_invariant hthreads hsum h hrun
    exact hinvariant.progress
  bounded := ⟨_, fun _ _ hrun => Nat.le_trans (Nat.le_add_right _ _) (length_le_rank hrun)⟩

/-- **The parallel sum is the sum**, exactly if twice the number of threads fits. -/
theorem returns_sum_iff (build : Build) (items : List UInt64) (threads : UInt64)
    (hthreads : 1 ≤ threads.toNat) (hsum : total items < 2 ^ 64) :
    ReturnsSum build items threads ↔ Fits build items threads := by
  refine ⟨fun h => by_contra fun hfits => ?_, returnsSum_of_fits hthreads hsum⟩
  refine not_returnsSum_of_init ?_ h
  rcases path_of_not_fits hthreads hfits with hpath | hpath
  · simp only [init, hpath]
  · simp only [init, hpath]

/-- Seven items for three threads are split into four chunks. -/
theorem returns_sum_iff_uneven : ReturnsSum .debug [42, 86, 31, 12, 8, 4, 3] 3 :=
  (returns_sum_iff .debug [42, 86, 31, 12, 8, 4, 3] 3 (by decide) (by decide)).mpr
    (.inl (by decide))

/-- A debug build panics on the empty slice, for 2^63 threads. -/
theorem not_returns_sum_empty : ¬ ReturnsSum .debug [] 0x8000000000000000 :=
  not_returnsSum_of_init rfl

end RustCourse.Lesson07.ParallelSum
