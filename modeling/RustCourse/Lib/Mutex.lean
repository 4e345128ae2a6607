import Mathlib.Logic.Function.Basic
import Mathlib.Tactic.Basic

/-!
# A lock and its holder

Every party of a system is in a phase, and in some phases it holds a lock.  The lock itself
says who its holder is.  `Held` says that the two agree, so that there is at most one holder
(`Held.unique`); a party that moves keeps this if it gets the lock when nobody has it and
gives it back when it leaves the phases that hold it.

Nothing is said about who gets the lock next.  The rules are about one party at a time, which
acquires the lock, releases it, or moves and keeps what it has (`Held.update`), so an invariant
that contains `Held` is kept step by step by naming the rule for the party that moves.
-/

namespace RustCourse

variable {ι φ : Type*}

/-! ## The invariant -/

/-- The holder of the lock is whoever is in a phase that holds it. -/
def Held (holds : φ → Prop) (holder : Option ι) (phase : ι → φ) : Prop :=
  ∀ p, holder = some p ↔ holds (phase p)

namespace Held

variable {holds : φ → Prop} {holder : Option ι} {phase : ι → φ} {p q : ι} {next : φ}

theorem unique (h : Held holds holder phase) (hp : holds (phase p)) (hq : holds (phase q)) :
    p = q :=
  Option.some.inj (((h p).mpr hp).symm.trans ((h q).mpr hq))

theorem not_holds (h : Held holds none phase) (p : ι) : ¬ holds (phase p) :=
  fun hp => nomatch (h p).mpr hp

variable [DecidableEq ι]

/-- A party moves that neither gets the lock nor gives it back. -/
theorem update (h : Held holds holder phase) (hsame : holds next ↔ holds (phase p)) :
    Held holds holder (Function.update phase p next) := by
  intro q
  by_cases hq : q = p
  · subst hq
    rw [Function.update_self, hsame]
    exact h q
  · rw [Function.update_of_ne hq]
    exact h q

theorem acquire (h : Held holds none phase) (hnext : holds next) :
    Held holds (some p) (Function.update phase p next) := by
  intro q
  by_cases hq : q = p
  · subst hq
    rw [Function.update_self]
    exact iff_of_true rfl hnext
  · rw [Function.update_of_ne hq]
    exact iff_of_false (fun heq => hq (Option.some.inj heq).symm) (h.not_holds q)

theorem release (h : Held holds holder phase) (hp : holds (phase p)) (hnext : ¬ holds next) :
    Held holds none (Function.update phase p next) := by
  intro q
  refine iff_of_false nofun ?_
  by_cases hq : q = p
  · subst hq
    rwa [Function.update_self]
  · rw [Function.update_of_ne hq]
    exact fun hholds => hq (h.unique hholds hp)

end Held

end RustCourse
