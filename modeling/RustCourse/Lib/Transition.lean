import Mathlib.Data.List.Basic
import Mathlib.Tactic.Basic

/-!
# Runs of a transition system

The servers and pipelines of the course are transition systems: a state, labels
that say which party moves and what the environment answered, and a step.  This
file names no program.  It fixes what a finite run is and proves the rules every
later invariant goes through.

A run carries its trace: the list of steps taken, each with the state it was taken
in and its label.  So "every step of the run meets `C`" is a statement about the
members of the trace, what can be observed of a run is computed from the trace, and
since every prefix of a run is a run, a statement about the last state of every run
is a statement about every reachable state.

An executable system is given by a function `σ → ℓ → Option σ`; `Fires` is its
relation and `replay` runs it on a list of labels.

## Strategy

Every rule is an induction over the run.  They differ in what may be assumed about a step:
nothing (`invariant`), a condition on every step (`invariantUnder`), or the invariant together
with what the trace says so far (`invariantTrace`).  `exists_cause` looks for the step at which
a property came about, and `OnlyAfter` is about what no step does before a signal.
-/

namespace RustCourse.Transition

variable {σ ℓ : Type*}

/-! ## Runs -/

/-- `Run step s trace t`: the steps of `trace`, in order, lead from `s` to `t`. -/
inductive Run (step : σ → ℓ → σ → Prop) (s : σ) : List (σ × ℓ) → σ → Prop
  | nil : Run step s [] s
  | snoc {trace : List (σ × ℓ)} {t u : σ} {l : ℓ} :
      Run step s trace t → step t l u → Run step s (trace ++ [(t, l)]) u

namespace Run

variable {step step' : σ → ℓ → σ → Prop} {s t u : σ} {trace rest : List (σ × ℓ)} {l : ℓ}

/-- **The invariant rule.**  What holds at the start and is kept by every step that meets
`C` holds at the end of every run whose steps all meet `C`.  The invariant may read the
trace so far, and the step is one of a run. -/
theorem invariantTraceUnder {C : σ → ℓ → Prop} {I : List (σ × ℓ) → σ → Prop}
    (hrun : Run step s trace t) (hmeets : ∀ p ∈ trace, C p.1 p.2) (hinit : I [] s)
    (hstep : ∀ trace t l u, Run step s trace t → I trace t → C t l → step t l u →
      I (trace ++ [(t, l)]) u) : I trace t := by
  induction hrun with
  | nil => exact hinit
  | @snoc trace t u l hrun hlast ih =>
      have hearlier : ∀ p ∈ trace, C p.1 p.2 := fun p hp => hmeets p (by simp [hp])
      exact hstep trace t l u hrun (ih hearlier) (hmeets (t, l) (by simp)) hlast

/-- The invariant rule without a condition on the steps. -/
theorem invariantTrace {I : List (σ × ℓ) → σ → Prop} (hrun : Run step s trace t)
    (hinit : I [] s)
    (hstep : ∀ trace t l u, Run step s trace t → I trace t → step t l u →
      I (trace ++ [(t, l)]) u) : I trace t :=
  hrun.invariantTraceUnder (C := fun _ _ => True) (fun _ _ => trivial) hinit
    fun trace t l u hrun hI _ hlast => hstep trace t l u hrun hI hlast

/-- The invariant rule for an invariant of the state. -/
theorem invariantUnder {C : σ → ℓ → Prop} {I : σ → Prop} (hrun : Run step s trace t)
    (hmeets : ∀ p ∈ trace, C p.1 p.2) (hinit : I s)
    (hstep : ∀ t l u, I t → C t l → step t l u → I u) : I t :=
  hrun.invariantTraceUnder (I := fun _ => I) hmeets hinit
    fun _ t l u _ => hstep t l u

/-- The invariant rule for a state, without a condition on the steps. -/
theorem invariant {I : σ → Prop} (hrun : Run step s trace t) (hinit : I s)
    (hstep : ∀ t l u, I t → step t l u → I u) : I t :=
  hrun.invariantUnder (C := fun _ _ => True) (fun _ _ => trivial) hinit
    fun t l u hI _ hlast => hstep t l u hI hlast

theorem single (h : step s l t) : Run step s [(s, l)] t :=
  .snoc .nil h

theorem append (hrun : Run step s trace t) (hrest : Run step t rest u) :
    Run step s (trace ++ rest) u := by
  induction hrest with
  | nil => simpa using hrun
  | snoc _ hlast ih =>
      rw [← List.append_assoc]
      exact .snoc ih hlast

/-- **A run can be split** at every step it takes. -/
theorem split (hrun : Run step s trace t) :
    ∀ before p after, trace = before ++ p :: after →
      ∃ u, Run step s before p.1 ∧ step p.1 p.2 u ∧ Run step u after t := by
  induction hrun with
  | nil =>
      intro before p after heq
      simp at heq
  | @snoc trace t u l hrun hlast ih =>
      intro before p after heq
      rcases List.eq_nil_or_concat after with rfl | ⟨after, last, rfl⟩
      · obtain ⟨rfl, hp⟩ := List.append_inj' heq rfl
        cases hp
        exact ⟨u, hrun, hlast, .nil⟩
      · rw [List.concat_eq_append, ← List.cons_append, ← List.append_assoc] at heq
        obtain ⟨rfl, hp⟩ := List.append_inj' heq rfl
        cases hp
        obtain ⟨v, hbefore, hstep, hafter⟩ := ih before p after rfl
        exact ⟨v, hbefore, hstep, by simpa using hafter.snoc hlast⟩

/-- Every member of the trace is a step that was taken, and what was taken before it is a
run. -/
theorem exists_before {p : σ × ℓ} (hrun : Run step s trace t) (hp : p ∈ trace) :
    ∃ before u, before <+: trace ∧ Run step s before p.1 ∧ step p.1 p.2 u := by
  obtain ⟨before, after, rfl⟩ := List.append_of_mem hp
  obtain ⟨u, hbefore, hstep, -⟩ := hrun.split before p after rfl
  exact ⟨before, u, List.prefix_append _ _, hbefore, hstep⟩

theorem step_of_mem {p : σ × ℓ} (hrun : Run step s trace t) (hp : p ∈ trace) :
    ∃ u, step p.1 p.2 u := by
  obtain ⟨before, u, -, -, hstep⟩ := hrun.exists_before hp
  exact ⟨u, hstep⟩

/-- **The cause rule.**  What does not hold at the start and is only brought about by steps of
a kind has such a step in the trace of every run after which it holds. -/
theorem exists_cause {F : σ → Prop} {K : σ × ℓ → Prop} (hrun : Run step s trace t)
    (hinit : ¬ F s)
    (hstep : ∀ trace t l u, Run step s trace t → step t l u → F u → F t ∨ K (t, l))
    (hflag : F t) : ∃ p ∈ trace, K p := by
  induction hrun with
  | nil => exact absurd hflag hinit
  | @snoc trace t u l hrun hlast ih =>
      rcases hstep trace t l u hrun hlast hflag with hearlier | hcause
      · obtain ⟨p, hp, hcause⟩ := ih hearlier
        exact ⟨p, List.mem_append_left _ hp, hcause⟩
      · exact ⟨(t, l), by simp, hcause⟩

theorem of_append (hrun : Run step s (trace ++ rest) t) :
    ∃ u, Run step s trace u ∧ Run step u rest t := by
  cases rest with
  | nil => exact ⟨t, by simpa using hrun, .nil⟩
  | cons p rest =>
      obtain ⟨u, hbefore, hstep, hafter⟩ := hrun.split trace p rest rfl
      exact ⟨p.1, hbefore, (single hstep).append hafter⟩

/-- Where runs have a bounded measure, some run is longest by it. -/
theorem exists_longest {measure : List (σ × ℓ) → ℕ} {bound : ℕ}
    (hbound : ∀ trace t, Run step s trace t → measure trace ≤ bound) :
    ∃ trace t, Run step s trace t ∧
      ∀ rest u, Run step s (trace ++ rest) u → measure (trace ++ rest) ≤ measure trace := by
  by_contra hnone
  push Not at hnone
  -- otherwise the measure could be made as large as one likes
  have hlarger : ∀ n, ∃ trace t, Run step s trace t ∧ n ≤ measure trace := by
    intro n
    induction n with
    | zero => exact ⟨[], s, .nil, Nat.zero_le _⟩
    | succ n ih =>
        obtain ⟨trace, t, hrun, hn⟩ := ih
        obtain ⟨rest, u, hrun', hlt⟩ := hnone trace t hrun
        exact ⟨trace ++ rest, u, hrun', by omega⟩
  obtain ⟨trace, t, hrun, hn⟩ := hlarger (bound + 1)
  exact absurd (hbound trace t hrun) (by omega)

end Run

/-! ## What happens only after a signal -/

/-- Whenever the event takes place in the trace, the signal was given, at the latest in the
same step. -/
def OnlyAfter (signal event : σ × ℓ → Prop) (trace : List (σ × ℓ)) : Prop :=
  ∀ before p after, trace = before ++ p :: after → event p →
    signal p ∨ ∃ q ∈ before, signal q

theorem OnlyAfter.of_never {signal event : σ × ℓ → Prop} {trace : List (σ × ℓ)}
    (h : ∀ p ∈ trace, ¬ event p) : OnlyAfter signal event trace := by
  rintro before p after rfl hevent
  exact absurd hevent (h p (by simp))

/-- The event of a trace has its signal in the trace. -/
theorem OnlyAfter.signal {signal event : σ × ℓ → Prop} {trace : List (σ × ℓ)} {p : σ × ℓ}
    (h : OnlyAfter signal event trace) (hp : p ∈ trace) (hevent : event p) :
    ∃ q ∈ trace, signal q := by
  obtain ⟨before, after, rfl⟩ := List.append_of_mem hp
  rcases h before p after rfl hevent with hsignal | ⟨q, hq, hsignal⟩
  · exact ⟨p, hp, hsignal⟩
  · exact ⟨q, List.mem_append_left _ hq, hsignal⟩

/-- An event that only happens with or behind another one comes after its signal, too. -/
theorem OnlyAfter.trans {signal cause event : σ × ℓ → Prop} {trace : List (σ × ℓ)}
    (h : OnlyAfter signal cause trace)
    (hcause : OnlyAfter (fun p => signal p ∨ cause p) event trace) :
    OnlyAfter signal event trace := by
  intro before p after heq hevent
  rcases hcause before p after heq hevent with (hsignal | hp) | ⟨q, hq, hsignal | hcaused⟩
  · exact .inl hsignal
  · exact h before p after heq hp
  · exact .inr ⟨q, hq, hsignal⟩
  · obtain ⟨first, rest, rfl⟩ := List.append_of_mem hq
    right
    rw [List.append_assoc, List.cons_append] at heq
    rcases h first q (rest ++ p :: after) heq hcaused with hsignal | ⟨r, hr, hsignal⟩
    · exact ⟨q, hq, hsignal⟩
    · exact ⟨r, List.mem_append_left _ hr, hsignal⟩

/-! ## Executable systems -/

/-- The relation of an executable step function. -/
def Fires (step : σ → ℓ → Option σ) (s : σ) (l : ℓ) (t : σ) : Prop :=
  step s l = some t

/-- One more step of an executable system. -/
theorem Run.fire {step : σ → ℓ → Option σ} {s t u : σ} {trace : List (σ × ℓ)}
    (hrun : Run (Fires step) s trace t) (l : ℓ) (h : step t l = some u) :
    Run (Fires step) s (trace ++ [(t, l)]) u :=
  .snoc hrun h

/-- The trace and the last state of the run that takes the labels of a list, if every
one of them can be taken. -/
def replay (step : σ → ℓ → Option σ) : σ → List ℓ → Option (List (σ × ℓ) × σ)
  | s, [] => some ([], s)
  | s, l :: rest =>
      (step s l).bind fun t => (replay step t rest).map fun r => ((s, l) :: r.1, r.2)

theorem run_of_replay {step : σ → ℓ → Option σ} {labels : List ℓ} {s : σ}
    {r : List (σ × ℓ) × σ} (h : replay step s labels = some r) :
    Run (Fires step) s r.1 r.2 := by
  induction labels generalizing s r with
  | nil =>
      cases h
      exact .nil
  | cons l labels ih =>
      obtain ⟨t, ht, hrest⟩ := Option.bind_eq_some_iff.mp h
      obtain ⟨r', hr', rfl⟩ := Option.map_eq_some_iff.mp hrest
      exact (Run.single ht).append (ih hr')

/-- A replay that satisfies `p` is a run that does. -/
theorem exists_run_of_replay (step : σ → ℓ → Option σ) (s : σ) (labels : List ℓ)
    (p : List (σ × ℓ) × σ → Bool) (h : (replay step s labels).any p = true) :
    ∃ trace t, Run (Fires step) s trace t ∧ p (trace, t) = true := by
  cases hreplay : replay step s labels with
  | none => simp [hreplay] at h
  | some r => exact ⟨r.1, r.2, run_of_replay hreplay, by simpa [hreplay] using h⟩

end RustCourse.Transition
