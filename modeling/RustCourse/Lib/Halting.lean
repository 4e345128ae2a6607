import Mathlib.Algebra.Order.Group.Nat
import Mathlib.Data.Finset.Card
import Mathlib.Tactic.Basic

/-!
# Systems that end in time or never

A deterministic system moves from a state to the next one, or has ended.  If all that its
moves depend on is one of finitely many views of the state, then a run that has made more
moves than there are views has had the same view twice, and goes round for ever:
`goes_on_of_long`.  So whether it ends is settled by the first moves.  This file names no
program.

The view need not determine the state.  A state may keep a record of what was done, for
instance, which no move looks at; and what never changes in a run is left to an invariant.

## Strategy

`Viewed` asks for a view and an invariant such that a move keeps the invariant, and equal views
of two states that meet it lead to equal views again.  A run of more moves than there are views
repeats one, by the pigeonhole principle (`exists_repeated`).  From there the moves repeat as
well, so the system can be run on for as long as one likes.
-/

namespace RustCourse.Halting

variable {σ α : Type*}

/-! ## Moves -/

/-- The state after so many moves, if it makes them all. -/
def after (step : σ → Option σ) : ℕ → σ → Option σ
  | 0, s => some s
  | n + 1, s => (step s).bind (after step n)

/-! ## Views -/

/-- What a state does next depends on its view, and the states that do not end have finitely
many views. -/
structure Viewed (step : σ → Option σ) (Inv : σ → Prop) (view : σ → α) (views : Finset α) :
    Prop where
  keeps : ∀ {s s'}, Inv s → step s = some s' → Inv s'
  agree : ∀ {s t}, Inv s → Inv t → view s = view t → (step s).map view = (step t).map view
  bounded : ∀ {s s'}, Inv s → step s = some s' → view s ∈ views

variable {step : σ → Option σ} {Inv : σ → Prop} {view : σ → α} {views : Finset α}
  {s s' t : σ} {m n : ℕ}

@[simp] theorem after_zero : after step 0 s = some s := rfl

theorem after_succ : after step (n + 1) s = (step s).bind (after step n) := rfl

theorem after_add : after step (m + n) s = (after step m s).bind (after step n) := by
  induction m generalizing s with
  | zero => simp
  | succ m ih => simp only [Nat.succ_add, after_succ, ih, Option.bind_assoc]

/-- Who makes so many moves has made the first of them. -/
theorem exists_after_of_le (hmn : m ≤ n) (h : (after step n s).isSome) :
    ∃ t, after step m s = some t := by
  obtain ⟨rest, rfl⟩ := Nat.exists_eq_add_of_le hmn
  rw [after_add] at h
  cases hm : after step m s with
  | none => simp [hm] at h
  | some t => exact ⟨t, rfl⟩

namespace Viewed

theorem keeps_after (h : Viewed step Inv view views) (hs : Inv s)
    (hn : after step n s = some t) : Inv t := by
  induction n generalizing s with
  | zero =>
      cases hn
      exact hs
  | succ n ih =>
      obtain ⟨s', hstep, hrest⟩ := Option.bind_eq_some_iff.mp hn
      exact ih (h.keeps hs hstep) hrest

/-- Two states of one view make as many moves. -/
theorem isSome_after (h : Viewed step Inv view views) (hs : Inv s) (ht : Inv t)
    (hview : view s = view t) : (after step n s).isSome = (after step n t).isSome := by
  induction n generalizing s t with
  | zero => rfl
  | succ n ih =>
      have hagree := h.agree hs ht hview
      rw [after_succ, after_succ]
      cases hstep : step s with
      | none =>
          rw [hstep, Option.map_none, eq_comm, Option.map_eq_none_iff] at hagree
          rw [hagree]
      | some s' =>
          rw [hstep, Option.map_some, eq_comm, Option.map_eq_some_iff] at hagree
          obtain ⟨t', hstep', hview'⟩ := hagree
          rw [hstep']
          exact ih (h.keeps hs hstep) (h.keeps ht hstep') hview'.symm

/-- A long run has had one view twice. -/
theorem exists_repeated (h : Viewed step Inv view views) (hs : Inv s)
    (hlong : (after step (views.card + 1) s).isSome) :
    ∃ i j t u, i < j ∧ after step i s = some t ∧ after step j s = some u ∧ view t = view u := by
  have hearly : ∀ i ≤ views.card, ∃ t, after step i s = some t := fun i hi =>
    exists_after_of_le (Nat.le_succ_of_le hi) hlong
  classical
  let viewAt (i : ℕ) : α := view ((after step i s).getD s)
  have hmem : ∀ i ∈ Finset.range (views.card + 1), viewAt i ∈ views := by
    intro i hi
    have hi := Finset.mem_range.mp hi
    obtain ⟨t, ht⟩ := hearly i (Nat.le_of_lt_succ hi)
    obtain ⟨u, hu⟩ := exists_after_of_le (Nat.succ_le_of_lt hi) hlong
    obtain ⟨t', hstep⟩ : ∃ t', step t = some t' := by
      rw [after_add (m := i) (n := 1), ht, Option.bind_some, after_succ] at hu
      obtain ⟨t', hstep, -⟩ := Option.bind_eq_some_iff.mp hu
      exact ⟨t', hstep⟩
    have hview : viewAt i = view t := by simp [viewAt, ht]
    rw [hview]
    exact h.bounded (h.keeps_after hs ht) hstep
  obtain ⟨i, hi, j, hj, hne, hsame⟩ :=
    Finset.exists_ne_map_eq_of_card_lt_of_maps_to (by simp) hmem
  -- the later of the two comes second
  wlog hij : i < j generalizing i j
  · exact this j hj i hi (Ne.symm hne) hsame.symm (by omega)
  obtain ⟨t, ht⟩ := hearly i (Nat.le_of_lt_succ (Finset.mem_range.mp hi))
  obtain ⟨u, hu⟩ := hearly j (Nat.le_of_lt_succ (Finset.mem_range.mp hj))
  refine ⟨i, j, t, u, hij, ht, hu, ?_⟩
  simpa [viewAt, ht, hu] using hsame

/-- **A run that makes more moves than there are views never ends.** -/
theorem goes_on_of_long (h : Viewed step Inv view views) (hs : Inv s)
    (hlong : (after step (views.card + 1) s).isSome) (n : ℕ) : (after step n s).isSome := by
  obtain ⟨i, j, t, u, hij, ht, hu, hview⟩ := h.exists_repeated hs hlong
  -- behind the second occurrence it goes on as behind the first, which was earlier
  induction n using Nat.strong_induction_on with
  | _ n ih =>
      by_cases hn : n ≤ j
      · obtain ⟨v, hv⟩ := exists_after_of_le hn (by rw [hu]; rfl)
        rw [hv]
        rfl
      · have hback := ih (i + (n - j)) (by omega)
        rw [after_add, ht, Option.bind_some,
          h.isSome_after (h.keeps_after hs ht) (h.keeps_after hs hu) hview] at hback
        have hsplit : n = j + (n - j) := by omega
        rw [hsplit, after_add, hu, Option.bind_some]
        exact hback

end Viewed

end RustCourse.Halting
