import RustCourse.Lesson07.Factorio

/-!
# One thread of the pipeline

A thread that handles one item at a time computes `emitted f`: it puts out what its
function returns, in order, up to the first item on which the function panics.  Whether
it was stopped by the end of its input, by a panic, or by the other end of its output is
what `Thread.Invariant` keeps apart.

## Strategy

`emitted` is a recursive function of the items, and most of what is known of it is how it
behaves when one more item comes in: it grows by one result, by none, or for the last time.
The invariant relates the items taken in, the items put out and the phase of the thread; each
step of the loop adds at most one item on either side.
-/

namespace RustCourse.Lesson07

open Dataflow

variable {I O U : Type}

namespace Outcome

variable {α β : Type}

@[simp] theorem map_ret (f : α → β) (a : α) : (ret a).map f = ret (f a) := rfl

@[simp] theorem map_panic (f : α → β) : panic.map f = panic := rfl

theorem map_eq_panic {f : α → β} {o : Outcome α} : o.map f = .panic ↔ o = .panic := by
  cases o <;> simp [map]

end Outcome

/-! ## What a loop emits -/

/-- The items that a loop over `f` puts out. -/
def emitted (f : I → Outcome (Option U)) : List I → List U
  | [] => []
  | x :: rest =>
      match f x with
      | .ret (some u) => u :: emitted f rest
      | .ret none => emitted f rest
      | .panic => []

/-- Some item makes `f` panic. -/
def Panics {α : Type} (f : I → Outcome α) (inputs : List I) : Prop :=
  ∃ x ∈ inputs, f x = .panic

section Emitted

variable {f : I → Outcome (Option U)} {xs ys : List I}

@[simp] theorem emitted_nil : emitted f [] = [] := rfl

theorem not_panics_nil {α : Type} {f : I → Outcome α} : ¬ Panics f [] := by
  simp [Panics]

theorem panics_snoc {α : Type} {f : I → Outcome α} {x : I} :
    Panics f (xs ++ [x]) ↔ Panics f xs ∨ f x = .panic := by
  simp [Panics, or_and_right, exists_or]

theorem Panics.mono {α : Type} {f : I → Outcome α} (h : xs <+: ys) : Panics f xs → Panics f ys
  | ⟨x, hmem, hpanic⟩ => ⟨x, h.subset hmem, hpanic⟩

/-- As long as nothing panicked, more input is handled as if it came alone. -/
theorem emitted_append (h : ¬ Panics f xs) :
    emitted f (xs ++ ys) = emitted f xs ++ emitted f ys := by
  induction xs with
  | nil => rfl
  | cons x rest ih =>
      have hrest : ¬ Panics f rest :=
        fun ⟨y, hmem, hpanic⟩ => h ⟨y, List.mem_cons_of_mem _ hmem, hpanic⟩
      cases hx : f x with
      | ret o => cases o <;> simp [emitted, hx, ih hrest]
      | panic => exact absurd ⟨x, List.mem_cons_self, hx⟩ h

/-- After a panic nothing is put out. -/
theorem emitted_stable (h : Panics f xs) : emitted f (xs ++ ys) = emitted f xs := by
  induction xs with
  | nil => exact absurd h not_panics_nil
  | cons x rest ih =>
      cases hx : f x with
      | ret o =>
          have hrest : Panics f rest := by
            obtain ⟨y, hmem, hpanic⟩ := h
            rcases List.mem_cons.mp hmem with rfl | hmem
            · simp [hx] at hpanic
            · exact ⟨y, hmem, hpanic⟩
          cases o <;> simp [emitted, hx, ih hrest]
      | panic => simp [emitted, hx]

theorem emitted_mono (h : xs <+: ys) : emitted f xs <+: emitted f ys := by
  obtain ⟨rest, rfl⟩ := h
  by_cases hpanics : Panics f xs
  · rw [emitted_stable hpanics]
  · rw [emitted_append hpanics]
    exact List.prefix_append _ _

theorem emitted_map {A : Type} (g : A → I) (as : List A) :
    emitted f (as.map g) = emitted (fun a => f (g a)) as := by
  induction as with
  | nil => rfl
  | cons a rest ih => simp only [List.map_cons, emitted, ih]

end Emitted

/-- The behaviour of a loop over `f`. -/
def each (f : I → Outcome (Option U)) : Behaviour I U where
  out := emitted f
  dies := Panics f
  out_mono := emitted_mono
  dies_mono := Panics.mono
  out_stable := by
    rintro xs _ ⟨rest, rfl⟩ hpanics
    exact emitted_stable hpanics

/-! ## The thread runs the loop -/

namespace Thread

/-- What the thread has taken in and put out, by where it is. -/
def Invariant (f : I → Outcome (Option U)) (ins : List (Signal I)) (outs : List (Signal U)) :
    Thread U → Prop
  | .waiting => emitted f (items ins) = items outs ∧ ¬ Panics f (items ins) ∧
      ¬ Ended ins ∧ ¬ HungUp ins ∧ ¬ Ended outs ∧ ¬ HungUp outs
  | .sending u => emitted f (items ins) = items outs ++ [u] ∧ ¬ Panics f (items ins) ∧
      ¬ Ended ins ∧ ¬ HungUp ins ∧ ¬ Ended outs ∧ ¬ HungUp outs
  | .exiting _ _ => HungUp outs ∧ items outs <+: emitted f (items ins) ∨
      emitted f (items ins) = items outs ∧ (Ended ins ∨ Panics f (items ins))

theorem Invariant.step {f : I → Outcome (Option U)} {ins : List (Signal I)}
    {outs : List (Signal U)} {s s' : Thread U} {l : Exchange I U} (h : Invariant f ins outs s)
    (hstep : Step f s l s') : Invariant f (ins ++ l.1.toList) (outs ++ l.2.toList) s' := by
  cases hstep with
  | produce hf | skip hf | panics hf =>
      obtain ⟨hflow, hpanics, hopen⟩ := h
      simp_all [Invariant, emitted_append, emitted, panics_snoc]
  | recvFails =>
      obtain ⟨hflow, -, -, hhungUp, -⟩ := h
      exact .inr ⟨by simpa using hflow, .inl (by simpa using hhungUp)⟩
  | send => simp_all [Invariant]
  | sendFails =>
      obtain ⟨hflow, -, -, -, hended, -⟩ := h
      exact .inl ⟨by simpa using hended, by simp [hflow]⟩
  | dropReceiver => simpa [Invariant] using h
  | dropSender =>
      rcases h with ⟨hhungUp, hinitial⟩ | h
      · exact .inl ⟨by simpa using hhungUp, by simpa using hinitial⟩
      · exact .inr (by simpa using h)

end Thread

theorem thread_invariant {f : I → Outcome (Option U)}
    {trace : List ((thread f).State × Exchange I U)} {s : (thread f).State}
    (hrun : (thread f).Runs trace s) : Thread.Invariant f (inputs trace) (outputs trace) s := by
  refine hrun.invariantTrace (I := fun trace s =>
    Thread.Invariant f (inputs trace) (outputs trace) s) ?_ ?_
  · simp [thread, Thread.Invariant, not_panics_nil]
  · intro trace s l s' _ h hstep
    simpa using h.step hstep

theorem thread_implements (f : I → Outcome (Option U)) : Implements (thread f) (each f) := by
  constructor
  · intro trace s hrun
    have h := thread_invariant hrun
    cases s with
    | waiting => exact h.1 ▸ List.prefix_refl _
    | sending u =>
        rw [show (each f).out _ = _ from h.1]
        exact List.prefix_append _ _
    -- a thread that is about to exit was hung up on, or has put everything out
    | exiting =>
        rcases h with ⟨-, h⟩ | ⟨h, -⟩
        · exact h
        · exact h ▸ List.prefix_refl _
  · intro trace s hrun hended
    have h := thread_invariant hrun
    cases s with
    | waiting => exact absurd hended h.2.2.2.2.1
    | sending u => exact absurd hended h.2.2.2.2.1
    | exiting =>
        rcases h with ⟨hhungUp, -⟩ | ⟨hflow, hcause⟩
        · exact absurd hhungUp hended.not_hungUp
        · exact ⟨hflow.symm, hcause⟩
  · intro trace s hrun hhungUp
    have h := thread_invariant hrun
    cases s with
    | waiting => exact absurd hhungUp h.2.2.2.1
    | sending u => exact absurd hhungUp h.2.2.2.1
    | exiting =>
        rcases h with ⟨hhungUp, -⟩ | ⟨-, hended | hpanics⟩
        · exact .inl hhungUp
        · exact absurd hhungUp hended.not_hungUp
        · exact .inr hpanics

end RustCourse.Lesson07
