import RustCourse.Lesson07.ParallelSum

/-!
# How many threads the parallel sum has

The slice is cut into chunks of `items.len() / threads` items, which leaves a remainder, and
the remainder gets chunks of its own.  So there are more chunks than threads that were asked
for, unless the division comes out even.

No step changes how many threads there are together with the chunks that still wait for one
(`planned_of_step`), and the caller can spawn them all before it does anything else
(`exists_all_spawned`).  So the number of threads of a call is the number of its chunks.

## Strategy

Both halves are about `planned`: that a run has it as a constant, and that it can be reached.
The number of chunks is the length of the slice divided by their size, rounded up, so the
question whether there are as many as asked for is one about the remainder of a division.
-/

namespace RustCourse.Lesson07.ParallelSum

open Transition

variable {build : Build} {items : List UInt64} {threads : UInt64} {s s' : State} {l : Label}

/-! ## Planned threads -/

/-- The chunks that have no thread yet. -/
def Main.waiting : Main → ℕ
  | spawning chunks => chunks.length
  | summing _ _ | joining _ _ | done _ | panicked => 0

/-- The threads that there are or will be. -/
def State.planned (s : State) : ℕ := s.workers.length + s.main.waiting

theorem planned_of_step (hstep : Step build s l s') : s'.planned = s.planned := by
  cases hstep with
  | @add x rest acc ws =>
      unfold State.planned
      cases build.add64 acc x with
      | none => rfl
      | some acc' => rfl
  | @spawn chunk chunks ws =>
      show (ws ++ [Worker.running chunk 0]).length + chunks.length = ws.length + (chunks.length + 1)
      rw [List.length_append, List.length_singleton]
      omega
  | summed | spawned | joinPanics | joined => rfl
  | work | finish =>
      unfold State.planned
      rw [List.length_set]
  | @join ws k sum result hk =>
      unfold State.planned
      cases build.add64 sum result with
      | none => rfl
      | some sum' => rfl

theorem workers_le_planned {trace : List (State × Label)} (hrun : Run (Step build) s trace s') :
    s'.workers.length ≤ s.planned := by
  have hplanned : s'.planned = s.planned :=
    hrun.invariant (I := fun t => t.planned = s.planned) rfl
      fun t l u h hstep => (planned_of_step hstep).trans h
  rw [← hplanned]
  exact Nat.le_add_right _ _

/-- The caller spawns a thread for every chunk. -/
theorem exists_all_spawned (build : Build) (chunks : List (List UInt64)) (ws : List Worker) :
    ∃ trace s, Run (Step build) ⟨.spawning chunks, ws⟩ trace s ∧
      s.workers.length = ws.length + chunks.length := by
  induction chunks generalizing ws with
  | nil => exact ⟨[], _, .nil, rfl⟩
  | cons chunk chunks ih =>
      obtain ⟨trace, s, hrun, hlength⟩ := ih (ws ++ [.running chunk 0])
      refine ⟨_, s, (Run.single .spawn).append hrun, ?_⟩
      rw [hlength, List.length_append, List.length_singleton, List.length_cons]
      omega

/-- Every planned thread is spawned in some run. -/
theorem exists_planned (build : Build) (s : State) :
    ∃ trace s', Run (Step build) s trace s' ∧ s.planned ≤ s'.workers.length := by
  obtain ⟨main, ws⟩ := s
  cases main with
  | spawning chunks =>
      obtain ⟨trace, s', hrun, hlength⟩ := exists_all_spawned build chunks ws
      exact ⟨trace, s', hrun, Nat.le_of_eq hlength.symm⟩
  | summing | joining | done | panicked => exact ⟨[], _, .nil, Nat.le_refl _⟩

/-- The number of threads of a call. -/
theorem spawns_le_iff (build : Build) (s : State) (count : ℕ) :
    (∀ trace s', Run (Step build) s trace s' → s'.workers.length ≤ count) ↔
      s.planned ≤ count := by
  constructor
  · intro h
    obtain ⟨trace, s', hrun, hle⟩ := exists_planned build s
    exact Nat.le_trans hle (h trace s' hrun)
  · intro h trace s' hrun
    exact Nat.le_trans (workers_le_planned hrun) h

/-! ## Chunks -/

/-- A slice of `u64` has at most `isize::MAX` bytes, eight for each item.  So with more than
2^63 threads it is short for their number. -/
theorem path_of_short (hthreads : 1 ≤ threads.toNat) (hslice : 8 * items.length < 2 ^ 63)
    (hshort : items.length < 2 * threads.toNat) :
    path build items threads = .sequential ∨ path build items threads = .panics ∨
      path build items threads = .parallel 0 := by
  have htwo : (2 : UInt64).toNat = 2 := rfl
  by_cases hfits : 2 * threads.toNat < 2 ^ 64
  · obtain ⟨limit, hlimit, hvalue⟩ := Build.exists_mul64 (a := 2) build (htwo.symm ▸ hfits)
    left
    rw [htwo] at hvalue
    rw [path_of_limit hlimit hthreads, if_pos (hvalue ▸ hshort)]
  · cases build with
    | debug =>
        right
        left
        rw [path, Build.mul64_debug_eq_none (htwo.symm ▸ Nat.not_lt.mp hfits)]
    | release =>
        obtain ⟨limit, hlimit, -⟩ := Build.mul64_release 2 threads
        have hdiv : items.length / threads.toNat = 0 := Nat.div_eq_of_lt (by omega)
        rw [path_of_limit hlimit hthreads, hdiv]
        split
        · exact .inl rfl
        · exact .inr (.inr rfl)

theorem path_of_long (hthreads : 1 ≤ threads.toNat) (hslice : 8 * items.length < 2 ^ 63)
    (hlong : 2 * threads.toNat ≤ items.length) :
    path build items threads = .parallel (items.length / threads.toNat) := by
  have htwo : (2 : UInt64).toNat = 2 := rfl
  have hfits : (2 : UInt64).toNat * threads.toNat < 2 ^ 64 := by
    rw [htwo]
    omega
  obtain ⟨limit, hlimit, hvalue⟩ := Build.exists_mul64 build hfits
  rw [htwo] at hvalue
  rw [path_of_limit hlimit hthreads, if_neg (by omega)]

theorem planned_of_short (hthreads : 1 ≤ threads.toNat) (hslice : 8 * items.length < 2 ^ 63)
    (hshort : items.length < 2 * threads.toNat) : (init build items threads).planned = 0 := by
  rcases @path_of_short build items threads hthreads hslice hshort with hpath | hpath | hpath
  · rw [init, hpath]
    rfl
  · rw [init, hpath]
    rfl
  · rw [init, hpath]
    rfl

theorem planned_of_long (hthreads : 1 ≤ threads.toNat) (hslice : 8 * items.length < 2 ^ 63)
    (hlong : 2 * threads.toNat ≤ items.length) :
    (init build items threads).planned =
      (Slice.chunks (items.length / threads.toNat) items).length := by
  have hpos : 0 < items.length / threads.toNat := Nat.div_pos (by omega) hthreads
  obtain ⟨n, hn⟩ := Nat.exists_eq_add_of_lt hpos
  rw [Nat.zero_add] at hn
  rw [init, path_of_long hthreads hslice hlong, hn]
  show [].length + (Slice.chunks (n + 1) items).length = _
  rw [List.length_nil, Nat.zero_add]

/-- No run of the call has more threads than it was asked for. -/
def KeepsCount (build : Build) (items : List UInt64) (threads : UInt64) : Prop :=
  ∀ trace s, Run (Step build) (init build items threads) trace s →
    s.workers.length ≤ threads.toNat

/-- **The parallel sum keeps to its number of threads**, exactly if it spawns none at all or the
slice can be divided up evenly. -/
theorem thread_count_iff (build : Build) (items : List UInt64) (threads : UInt64)
    (hthreads : 1 ≤ threads.toNat) (hslice : 8 * items.length < 2 ^ 63) :
    KeepsCount build items threads ↔
      items.length < 2 * threads.toNat ∨ threads.toNat ∣ items.length := by
  rw [KeepsCount, spawns_le_iff]
  by_cases hshort : items.length < 2 * threads.toNat
  · rw [planned_of_short hthreads hslice hshort]
    exact iff_of_true (Nat.zero_le _) (.inl hshort)
  · have hlong := Nat.not_lt.mp hshort
    have hpos : 0 < items.length / threads.toNat := Nat.div_pos (by omega) hthreads
    calc (init build items threads).planned ≤ threads.toNat
        ↔ (Slice.chunks (items.length / threads.toNat) items).length ≤ threads.toNat := by
          rw [planned_of_long hthreads hslice hlong]
      _ ↔ items.length ≤ threads.toNat * (items.length / threads.toNat) :=
          Slice.length_chunks_le_iff hpos
      _ ↔ threads.toNat ∣ items.length := by
          rw [Nat.dvd_iff_div_mul_eq, Nat.mul_comm]
          have hle := Nat.div_mul_le_self items.length threads.toNat
          omega
      _ ↔ items.length < 2 * threads.toNat ∨ threads.toNat ∣ items.length :=
          (or_iff_right hshort).symm

/-- Six items are divided up evenly. -/
theorem thread_count_iff_even : KeepsCount .debug [42, 86, 31, 12, 8, 4] 3 :=
  (thread_count_iff .debug [42, 86, 31, 12, 8, 4] 3 (by decide) (by decide)).mpr
    (.inr (by decide))

/-- Seven items for three threads get four. -/
theorem too_many_threads : ¬ KeepsCount .debug [42, 86, 31, 12, 8, 4, 3] 3 :=
  fun h => absurd ((spawns_le_iff _ _ _).mp h) (by decide)

end RustCourse.Lesson07.ParallelSum
