import Mathlib.Data.List.Forall2
import Mathlib.Tactic.Basic

/-!
# Computations that may fail

Facts about `Except`, to take a computation apart that has succeeded: `bind_eq_ok` splits
it at a bind, and `foldlM_induction` is the induction over the loop `foldlM` with what has
been done so far.

## Strategy

A computation in `Except` is a chain of binds, and an equation about its result is split at the
first of them, for a success as well as for an error.  A loop over a list is a `foldlM`; it is
gone through with an invariant (`foldlM_induction`), or, if every iteration adds one item to a
list, with what was added so far (`foldlM_push`).  An error of the loop is one of an iteration,
after the ones before it have succeeded (`foldlM_eq_error`).
-/

namespace RustCourse.Fallible

universe u v

variable {ε ε' : Type u} {α β : Type v}

/-! ## Binds -/

theorem bind_eq_ok {x : Except ε α} {f : α → Except ε β} {b : β} :
    x >>= f = .ok b ↔ ∃ a, x = .ok a ∧ f a = .ok b := by
  cases x with
  | error e => simp [bind, Except.bind]
  | ok a => simp [bind, Except.bind]

theorem bind_eq_error {x : Except ε α} {f : α → Except ε β} {e : ε} :
    x >>= f = .error e ↔ x = .error e ∨ ∃ a, x = .ok a ∧ f a = .error e := by
  cases x with
  | error e' => simp [bind, Except.bind]
  | ok a => simp [bind, Except.bind]

/-- What cannot fail may come behind. -/
theorem bind_eq_error_of_ok {x : Except ε α} {f : α → Except ε β} {e : ε}
    (hf : ∀ a, ∃ b, f a = .ok b) : x >>= f = .error e ↔ x = .error e := by
  refine bind_eq_error.trans (or_iff_left ?_)
  rintro ⟨a, -, herror⟩
  obtain ⟨b, hb⟩ := hf a
  exact nomatch hb.symm.trans herror

@[simp] theorem pure_eq_ok {a b : α} : (pure a : Except ε α) = .ok b ↔ a = b := by
  simp [pure, Except.pure]

/-! ## Errors that are renamed -/

@[simp] theorem mapError_eq_ok {f : ε → ε'} {x : Except ε α} {a : α} :
    x.mapError f = .ok a ↔ x = .ok a := by
  cases x with
  | error e => exact ⟨nofun, nofun⟩
  | ok b => exact ⟨fun h => by cases h; rfl, fun h => by cases h; rfl⟩

theorem mapError_eq_error {f : ε → ε'} {x : Except ε α} {e' : ε'} :
    x.mapError f = .error e' ↔ ∃ e, x = .error e ∧ e' = f e := by
  cases x with
  | error e =>
      constructor
      · rintro ⟨⟩
        exact ⟨e, rfl, rfl⟩
      · rintro ⟨_, ⟨⟩, rfl⟩
        rfl
  | ok a => exact ⟨nofun, nofun⟩

/-! ## Loops -/

/-- A property that holds before the loop and that every successful turn preserves holds
behind it; it may speak about the items that have been seen. -/
theorem foldlM_induction {f : β → α → Except ε β} {init result : β} {items : List α}
    {motive : List α → β → Prop} (h : items.foldlM f init = .ok result) (hinit : motive [] init)
    (hstep : ∀ done item acc acc', motive done acc → f acc item = .ok acc' →
      motive (done ++ [item]) acc') : motive items result := by
  suffices hall : ∀ done acc, motive done acc → items.foldlM f acc = .ok result →
      motive (done ++ items) result from hall [] init hinit h
  clear h
  induction items with
  | nil =>
      intro done acc hacc hresult
      simp only [List.foldlM_nil, pure_eq_ok] at hresult
      rw [List.append_nil, ← hresult]
      exact hacc
  | cons item items ih =>
      intro done acc hacc hresult
      rw [List.foldlM_cons, bind_eq_ok] at hresult
      obtain ⟨acc', hitem, hrest⟩ := hresult
      rw [List.append_cons]
      exact ih _ _ (hstep done item acc acc' hacc hitem) hrest

/-- The loop that pushes a result for every item. -/
theorem foldlM_push {f : α → Except ε β} {items : List α} {results init : List β} :
    items.foldlM (fun acc item => f item >>= fun b => pure (acc ++ [b])) init = .ok results ↔
      ∃ pushed, results = init ++ pushed ∧
        List.Forall₂ (fun item b => f item = .ok b) items pushed := by
  induction items generalizing init with
  | nil =>
      rw [List.foldlM_nil, pure_eq_ok]
      simp [eq_comm]
  | cons item items ih =>
      rw [List.foldlM_cons]
      cases hitem : f item with
      | error e =>
          constructor
          · exact nofun
          · rintro ⟨pushed, -, hpushed⟩
            cases hpushed with
            | cons hok _ => exact nomatch hitem.symm.trans hok
      | ok b =>
          refine (@ih (init ++ [b])).trans ?_
          constructor
          · rintro ⟨pushed, rfl, hpushed⟩
            exact ⟨b :: pushed, (List.append_cons init b pushed).symm, .cons hitem hpushed⟩
          · rintro ⟨pushed, rfl, hpushed⟩
            cases hpushed with
            | @cons _ b' _ pushed hok hpushed =>
                cases hitem.symm.trans hok
                exact ⟨pushed, List.append_cons init b pushed, hpushed⟩

/-- The loop fails at the first item whose turn fails. -/
theorem foldlM_eq_error {f : β → α → Except ε β} {init : β} {items : List α} {e : ε} :
    items.foldlM f init = .error e ↔
      ∃ done item rest acc, items = done ++ item :: rest ∧ done.foldlM f init = .ok acc ∧
        f acc item = .error e := by
  -- by induction on the list: the first item fails, or it is done
  induction items generalizing init with
  | nil => simp [pure, Except.pure]
  | cons item items ih =>
      rw [List.foldlM_cons]
      cases hitem : f init item with
      | error e' =>
          constructor
          · rintro ⟨⟩
            exact ⟨[], item, items, init, rfl, rfl, hitem⟩
          · rintro ⟨done, item', rest, acc, hitems, hdone, hfails⟩
            cases done with
            | nil =>
                cases hitems
                cases hdone
                exact hitem.symm.trans hfails
            | cons first done =>
                cases hitems
                rw [List.foldlM_cons, hitem] at hdone
                exact nomatch hdone
      | ok acc =>
          refine (@ih acc).trans ?_
          constructor
          · rintro ⟨done, item', rest, acc', rfl, hdone, hfails⟩
            refine ⟨item :: done, item', rest, acc', rfl, ?_, hfails⟩
            rw [List.foldlM_cons, hitem]
            exact hdone
          · rintro ⟨done, item', rest, acc', hitems, hdone, hfails⟩
            cases done with
            | nil =>
                cases hitems
                cases hdone
                rw [hitem] at hfails
                exact nomatch hfails
            | cons first done =>
                cases hitems
                rw [List.foldlM_cons, hitem] at hdone
                exact ⟨done, item', rest, acc', rfl, hdone, hfails⟩

end RustCourse.Fallible
