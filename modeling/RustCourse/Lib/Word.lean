import Mathlib.Algebra.Ring.Nat

/-!
# Machine integers

What `+` and `-` do with a `u32` depends on how a crate was built: a debug build panics
where the result does not fit, a release build computes modulo 2^32.  Programs are
translated for either build, with `none` for the panic; `add_release` and its like say
that a release build never panics, `add_eq_some` and its like that a debug build computes
with natural numbers.  The operations on 64 bits are apart.

## Strategy

The operations of a build return an `Option`, and everything is said by equations for it: in a
debug build with a side condition that the result fits, in a release build without.  A debug
build that has not panicked agrees with the release build (`add_release_of_debug`), so a result
for both builds follows from the one for natural numbers.
-/

namespace RustCourse

/-! ## 32 bits -/

/-- A debug build panics on overflow, and a release build wraps. -/
inductive Build
  | debug
  | release
  deriving DecidableEq, Repr

namespace Build

/-- `a + b` -/
def add : Build → UInt32 → UInt32 → Option UInt32
  | debug, a, b => if a.toNat + b.toNat < 2 ^ 32 then some (a + b) else none
  | release, a, b => some (a + b)

/-- `a - b` -/
def sub : Build → UInt32 → UInt32 → Option UInt32
  | debug, a, b => if b ≤ a then some (a - b) else none
  | release, a, b => some (a - b)

@[simp] theorem add_release (a b : UInt32) : release.add a b = some (a + b) := rfl

@[simp] theorem sub_release (a b : UInt32) : release.sub a b = some (a - b) := rfl

/-! ## A debug build computes with natural numbers -/

section Debug

theorem add_debug (a b : UInt32) :
    debug.add a b = if a.toNat + b.toNat < 2 ^ 32 then some (a + b) else none := rfl

theorem sub_debug (a b : UInt32) : debug.sub a b = if b ≤ a then some (a - b) else none := rfl

variable {a b c : UInt32}

theorem add_eq_some : debug.add a b = some c ↔ c.toNat = a.toNat + b.toNat := by
  have hc := c.toNat_lt
  rw [add_debug]
  split
  · next hlt =>
      rw [Option.some.injEq, ← UInt32.toNat_inj, UInt32.toNat_add, Nat.mod_eq_of_lt hlt, eq_comm]
  · next hge => exact ⟨nofun, fun h => absurd (h ▸ hc) hge⟩

theorem sub_eq_some : debug.sub a b = some c ↔ c.toNat + b.toNat = a.toNat := by
  rw [sub_debug]
  split
  · next hle =>
      have hle' := UInt32.le_iff_toNat_le.mp hle
      rw [Option.some.injEq, ← UInt32.toNat_inj, UInt32.toNat_sub_of_le _ _ hle]
      omega
  · next hlt =>
      rw [UInt32.le_iff_toNat_le] at hlt
      exact ⟨nofun, fun h => absurd (h ▸ Nat.le_add_left _ _) hlt⟩

theorem add_of_lt (h : a.toNat + b.toNat < 2 ^ 32) : debug.add a b = some (a + b) := if_pos h

theorem sub_of_le (h : b ≤ a) : debug.sub a b = some (a - b) := if_pos h

theorem exists_add (h : a.toNat + b.toNat < 2 ^ 32) :
    ∃ c, debug.add a b = some c ∧ c.toNat = a.toNat + b.toNat :=
  ⟨a + b, add_of_lt h, add_eq_some.mp (add_of_lt h)⟩

theorem exists_sub (h : b.toNat ≤ a.toNat) :
    ∃ c, debug.sub a b = some c ∧ c.toNat = a.toNat - b.toNat := by
  have hsub := sub_of_le (UInt32.le_iff_toNat_le.mpr h)
  exact ⟨a - b, hsub, Nat.eq_sub_of_add_eq (sub_eq_some.mp hsub)⟩

theorem add_release_of_debug (h : debug.add a b = some c) : release.add a b = some c := by
  rw [add_debug] at h
  split at h
  · exact h
  · exact nomatch h

theorem sub_release_of_debug (h : debug.sub a b = some c) : release.sub a b = some c := by
  rw [sub_debug] at h
  split at h
  · exact h
  · exact nomatch h

end Debug

/-! ## 64 bits -/

/-- `a + b` for a `u64` -/
def add64 : Build → UInt64 → UInt64 → Option UInt64
  | debug, a, b => if a.toNat + b.toNat < 2 ^ 64 then some (a + b) else none
  | release, a, b => some (a + b)

/-- `a - b` for a `u64` -/
def sub64 : Build → UInt64 → UInt64 → Option UInt64
  | debug, a, b => if b ≤ a then some (a - b) else none
  | release, a, b => some (a - b)

/-- `a * b` for a `usize` -/
def mul64 : Build → UInt64 → UInt64 → Option UInt64
  | debug, a, b => if a.toNat * b.toNat < 2 ^ 64 then some (a * b) else none
  | release, a, b => some (a * b)

section Wide

variable {a b : UInt64}

/-- An addition that does not overflow is the same in both builds. -/
theorem exists_add64 (build : Build) (h : a.toNat + b.toNat < 2 ^ 64) :
    ∃ c, build.add64 a b = some c ∧ c.toNat = a.toNat + b.toNat := by
  refine ⟨a + b, ?_, by rw [UInt64.toNat_add, Nat.mod_eq_of_lt h]⟩
  cases build with
  | debug => exact if_pos h
  | release => rfl

theorem toNat_of_add64 {build : Build} {c : UInt64} (h : build.add64 a b = some c) :
    c.toNat = (a.toNat + b.toNat) % 2 ^ 64 := by
  have hsum : a + b = c := by
    cases build with
    | debug =>
        rw [add64] at h
        split at h
        · exact Option.some.inj h
        · exact nomatch h
    | release => exact Option.some.inj h
  rw [← hsum, UInt64.toNat_add]

theorem exists_sub64 (build : Build) (h : b.toNat ≤ a.toNat) :
    ∃ c, build.sub64 a b = some c ∧ c.toNat = a.toNat - b.toNat := by
  have hle : b ≤ a := UInt64.le_iff_toNat_le.mpr h
  refine ⟨a - b, ?_, UInt64.toNat_sub_of_le _ _ hle⟩
  cases build with
  | debug => exact if_pos hle
  | release => rfl

theorem exists_mul64 (build : Build) (h : a.toNat * b.toNat < 2 ^ 64) :
    ∃ c, build.mul64 a b = some c ∧ c.toNat = a.toNat * b.toNat := by
  refine ⟨a * b, ?_, by rw [UInt64.toNat_mul, Nat.mod_eq_of_lt h]⟩
  cases build with
  | debug => exact if_pos h
  | release => rfl

theorem mul64_debug_eq_none (h : 2 ^ 64 ≤ a.toNat * b.toNat) : debug.mul64 a b = none :=
  if_neg (Nat.not_lt.mpr h)

theorem mul64_release (a b : UInt64) : ∃ c, release.mul64 a b = some c ∧
    c.toNat = a.toNat * b.toNat % 2 ^ 64 :=
  ⟨a * b, rfl, UInt64.toNat_mul a b⟩

end Wide

end Build

end RustCourse
