import Mathlib.Order.Defs.Unbundled

/-!
# Effects of computations that may fail

A computation of `EStateM` returns or fails, and either way it leaves a state behind.  What
it may do to the state is said about the ways out together (`Leaves`) or apart: `Within` and
`Returns` are about those where it returns, `Atomic` and `Avoids` about failures of some
kind.  The rules put a property of a sequence together from those of its parts; the main ones
are `Atomic.bind`, where what comes first only reads, and `Atomic.bind_of_avoids`, where what
comes last cannot fail.

Two runs of one computation are compared by `Lockstep`: from states that are related it goes
the same way twice, and the states it leaves behind are related again.
-/

namespace RustCourse.Effects

universe u

variable {ε σ α β : Type u} {x : EStateM ε σ α} {f : α → EStateM ε σ β}

/-! ## Taking a sequence apart -/

theorem run_bind_eq_ok {s s' : σ} {b : β} :
    (x >>= f).run s = .ok b s' ↔ ∃ a t, x.run s = .ok a t ∧ (f a).run t = .ok b s' := by
  rw [EStateM.run_bind]
  cases hx : x.run s with
  | ok a t =>
      constructor
      · exact fun h => ⟨a, t, rfl, h⟩
      · rintro ⟨_, _, ⟨⟩, h⟩
        exact h
  | error e t => exact ⟨nofun, nofun⟩

theorem run_bind_eq_error {s s' : σ} {e : ε} :
    (x >>= f).run s = .error e s' ↔
      x.run s = .error e s' ∨ ∃ a t, x.run s = .ok a t ∧ (f a).run t = .error e s' := by
  rw [EStateM.run_bind]
  cases hx : x.run s with
  | ok a t =>
      constructor
      · exact fun h => .inr ⟨a, t, rfl, h⟩
      · rintro (h | ⟨_, _, ⟨⟩, h⟩)
        · exact nomatch h
        · exact h
  | error e' t =>
      constructor
      · exact fun h => .inl (by cases h; rfl)
      · rintro (h | ⟨_, _, h, _⟩)
        · cases h
          rfl
        · exact nomatch h

/-! ## Either way -/

/-- The state that is left behind. -/
def final : EStateM.Result ε σ α → σ
  | .ok _ s => s
  | .error _ s => s

/-- The state it leaves behind is related to the one it started in. -/
def Leaves (R : σ → σ → Prop) (x : EStateM ε σ α) : Prop :=
  ∀ s, R s (final (x.run s))

namespace Leaves

variable {R R' : σ → σ → Prop}

theorem pure [Std.Refl R] (a : α) : Leaves R (Pure.pure a : EStateM ε σ α) :=
  fun s => refl_of R s

theorem throw [Std.Refl R] (e : ε) : Leaves R (throw e : EStateM ε σ α) :=
  fun s => refl_of R s

theorem bind [IsTrans σ R] (hx : Leaves R x) (hf : ∀ a, Leaves R (f a)) : Leaves R (x >>= f) := by
  intro s
  have hfirst := hx s
  rw [EStateM.run_bind]
  cases hrun : x.run s with
  | ok a t =>
      rw [hrun] at hfirst
      exact trans_of R hfirst (hf a t)
  | error e t =>
      rw [hrun] at hfirst
      exact hfirst

/-- What only reads leaves everything related. -/
theorem of_eq [Std.Refl R] (hx : Leaves Eq x) : Leaves R x := by
  intro s
  rw [← hx s]
  exact refl_of R s

theorem mono (hx : Leaves R x) (h : ∀ s s', R s s' → R' s s') : Leaves R' x :=
  fun s => h _ _ (hx s)

end Leaves

/-! ## When it returns -/

/-- The state it returns with is related to the one it started in. -/
def Within (R : σ → σ → Prop) (x : EStateM ε σ α) : Prop :=
  ∀ s a s', x.run s = .ok a s' → R s s'

/-- It returns a value of this kind. -/
def Returns (Q : α → Prop) (x : EStateM ε σ α) : Prop :=
  ∀ s a s', x.run s = .ok a s' → Q a

theorem Leaves.within {R : σ → σ → Prop} (hx : Leaves R x) : Within R x := by
  intro s a s' hrun
  have hleft := hx s
  rwa [hrun] at hleft

namespace Within

variable {R R' : σ → σ → Prop}

theorem pure [Std.Refl R] (a : α) : Within R (Pure.pure a : EStateM ε σ α) := by
  rintro s a s' ⟨⟩
  exact refl_of R s

theorem bind [IsTrans σ R] (hx : Within R x) (hf : ∀ a, Within R (f a)) : Within R (x >>= f) := by
  intro s b s' h
  obtain ⟨a, t, hxt, hft⟩ := run_bind_eq_ok.mp h
  exact trans_of R (hx s a t hxt) (hf a t b s' hft)

/-- What only reads is within every relation. -/
theorem of_eq [Std.Refl R] (hx : Within Eq x) : Within R x := by
  intro s a s' h
  rw [hx s a s' h]
  exact refl_of R s'

end Within

namespace Returns

variable {Q : β → Prop}

theorem pure {b : β} (hb : Q b) : Returns Q (Pure.pure b : EStateM ε σ β) := by
  rintro s b s' ⟨⟩
  exact hb

theorem throw (e : ε) : Returns Q (throw e : EStateM ε σ β) :=
  fun _ _ _ h => nomatch h

theorem bind (hf : ∀ a, Returns Q (f a)) : Returns Q (x >>= f) := by
  intro s b s' h
  obtain ⟨a, t, -, hft⟩ := run_bind_eq_ok.mp h
  exact hf a t b s' hft

end Returns

/-! ## When it fails -/

/-- A failure of this kind leaves the state as it was. -/
def Atomic (P : ε → Prop) (x : EStateM ε σ α) : Prop :=
  ∀ s e s', x.run s = .error e s' → P e → s' = s

/-- It does not fail in this way. -/
def Avoids (P : ε → Prop) (x : EStateM ε σ α) : Prop :=
  ∀ s e s', x.run s = .error e s' → ¬ P e

variable {P : ε → Prop}

namespace Avoids

theorem pure (a : α) : Avoids P (Pure.pure a : EStateM ε σ α) :=
  fun _ _ _ h => nomatch h

theorem bind (hx : Avoids P x) (hf : ∀ a, Avoids P (f a)) : Avoids P (x >>= f) := by
  intro s e s' h
  rcases run_bind_eq_error.mp h with h | ⟨a, t, -, h⟩
  · exact hx s e s' h
  · exact hf a t e s' h

end Avoids

namespace Atomic

theorem of_avoids (hx : Avoids P x) : Atomic P x :=
  fun s e s' h hP => absurd hP (hx s e s' h)

theorem pure (a : α) : Atomic P (Pure.pure a : EStateM ε σ α) :=
  of_avoids (.pure a)

theorem throw (e : ε) : Atomic P (throw e : EStateM ε σ α) := by
  rintro s e s' ⟨⟩ -
  rfl

/-- What only reads may come before. -/
theorem bind (hx : Atomic P x) (hread : Within Eq x) (hf : ∀ a, Atomic P (f a)) :
    Atomic P (x >>= f) := by
  intro s e s' h hP
  rcases run_bind_eq_error.mp h with h | ⟨a, t, hxt, h⟩
  · exact hx s e s' h hP
  · rw [hread s a t hxt]
    exact hf a t e s' h hP

/-- What cannot fail may come behind. -/
theorem bind_of_avoids (hx : Atomic P x) (hf : ∀ a, Avoids P (f a)) : Atomic P (x >>= f) := by
  intro s e s' h hP
  rcases run_bind_eq_error.mp h with h | ⟨a, t, -, h⟩
  · exact hx s e s' h hP
  · exact absurd hP (hf a t e s' h)

end Atomic

/-! ## Two runs of it -/

/-- The same result twice, with states that are related. -/
inductive Alike (R : σ → σ → Prop) :
    EStateM.Result ε σ α → EStateM.Result ε σ α → Prop
  | ok {a : α} {s s' : σ} (h : R s s') : Alike R (.ok a s) (.ok a s')
  | error {e : ε} {s s' : σ} (h : R s s') : Alike R (.error e s) (.error e s')

/-- From related states it goes the same way. -/
def Lockstep (R : σ → σ → Prop) (x : EStateM ε σ α) : Prop :=
  ∀ s s', R s s' → Alike R (x.run s) (x.run s')

namespace Lockstep

variable {R : σ → σ → Prop}

theorem pure (a : α) : Lockstep R (Pure.pure a : EStateM ε σ α) :=
  fun _ _ h => .ok h

theorem throw (e : ε) : Lockstep R (throw e : EStateM ε σ α) :=
  fun _ _ h => .error h

theorem bind (hx : Lockstep R x) (hf : ∀ a, Lockstep R (f a)) : Lockstep R (x >>= f) := by
  intro s s' h
  rw [EStateM.run_bind, EStateM.run_bind]
  have hfirst := hx s s' h
  generalize x.run s = first at hfirst
  generalize x.run s' = first' at hfirst
  cases hfirst with
  | ok h => exact hf _ _ _ h
  | error h => exact .error h

end Lockstep

end RustCourse.Effects
