import Mathlib.Data.List.Induction
import RustCourse.Lesson02.Computer

/-!
# The computer of lesson 02 with counters that do not overflow

`Enum.Exact` and `Struct.Exact` are the two versions with natural numbers for `u32`; every
subtraction of the source takes a smaller number from a larger one in the states that are
reached (`Enum.Exact.Bounded`).  A debug build computes with natural numbers until it
panics, so it does what the exact version does as long as every event fits (`Fits`), and
panics at the first that does not.

Time adds up in the exact version (`Enum.Exact.passTime_add`), and by the bounds on the
counters it does so on the machine while the uptime is a `u32`.
-/

namespace RustCourse.Lesson02

/-! ## The exact versions -/

namespace Enum

/-- A `ComputerState` with natural numbers. -/
inductive Exact
  | off
  | running (uptime idleTime : ℕ)
  | sleeping (uptime sleepTime : ℕ)
  deriving DecidableEq, Repr

namespace Exact

/-- The arm of a sleeping computer for `Event::PassTime(t)`. -/
def sleepFor (uptime sleepTime t : ℕ) : Exact :=
  let sleepTime := sleepTime + t
  if sleepTime > 500 then off else sleeping (uptime + t) sleepTime

/-- Time passes for counters without bounds. -/
def passTime : Exact → ℕ → Exact
  | off, _ => off
  | sleeping uptime sleepTime, t => sleepFor uptime sleepTime t
  | running uptime idleTime, t =>
      if idleTime + t > 1000 then
        let remTime := idleTime + t - 1000
        let timeUntilSleep := 1000 - idleTime
        sleepFor (uptime + timeUntilSleep) 0 remTime
      else running (uptime + t) (idleTime + t)

def pcTransition : Exact → Event → Exact
  | off, .turnOn => running 0 0
  | off, .turnOff | off, .moveMouse => off
  | running uptime idleTime, .turnOn => running uptime idleTime
  | running _ _, .turnOff => off
  | running uptime _, .moveMouse => running uptime 0
  | sleeping uptime sleepTime, .turnOn => sleeping uptime sleepTime
  | sleeping _ _, .turnOff => off
  | sleeping uptime _, .moveMouse => running uptime 0
  | computer, .passTime t => computer.passTime t.toNat

def run (events : List Event) : Exact := events.foldl pcTransition off

def uptime : Exact → ℕ
  | off => 0
  | running uptime _ => uptime
  | sleeping uptime _ => uptime

end Exact

/-- The counters of the state as numbers. -/
def ComputerState.exact : ComputerState → Exact
  | off => .off
  | running uptime idleTime => .running uptime.toNat idleTime.toNat
  | sleeping uptime sleepTime => .sleeping uptime.toNat sleepTime.toNat

end Enum

namespace Struct

/-- A `ComputerState` with natural numbers. -/
structure Exact where
  running : Bool
  sleeping : Bool
  idleTime : ℕ
  sleepTime : ℕ
  upTime : ℕ
  deriving DecidableEq, Repr

namespace Exact

def newOff : Exact := ⟨false, false, 0, 0, 0⟩

def newOn : Exact := ⟨true, false, 0, 0, 0⟩

def isOn (computer : Exact) : Bool := computer.running || computer.sleeping

/-- Time passes for counters without bounds. -/
def passTime (computer : Exact) (time : ℕ) : Exact := Id.run do
  let mut computer := computer
  let mut time := time
  computer := { computer with upTime := computer.upTime + time }
  if computer.running then
    computer := { computer with idleTime := computer.idleTime + time }
  if computer.idleTime > 1000 then
    time := computer.idleTime - 1000
    computer := { computer with running := false, sleeping := true, idleTime := 0 }
  if computer.sleeping then
    computer := { computer with sleepTime := computer.sleepTime + time }
  if computer.sleepTime > 500 then
    return newOff
  return computer

def pcTransition (computer : Exact) : Event → Exact
  | .turnOn => if !computer.isOn then newOn else computer
  | .turnOff => newOff
  | .moveMouse =>
      if computer.running then { computer with idleTime := 0 }
      else if computer.sleeping then
        { computer with running := true, sleeping := false, sleepTime := 0 }
      else computer
  | .passTime t => if computer.isOn then computer.passTime t.toNat else computer

def run (events : List Event) : Exact := events.foldl pcTransition newOff

end Exact

/-- The counters of the state as numbers. -/
def ComputerState.exact (computer : ComputerState) : Exact where
  running := computer.running
  sleeping := computer.sleeping
  idleTime := computer.idleTime.toNat
  sleepTime := computer.sleepTime.toNat
  upTime := computer.upTime.toNat

end Struct

/-- `encode` for the exact versions. -/
def encodeExact : Enum.Exact → Struct.Exact
  | .off => .newOff
  | .running uptime idleTime => ⟨true, false, idleTime, 0, uptime⟩
  | .sleeping uptime sleepTime => ⟨false, true, 0, sleepTime, uptime⟩

theorem exact_encode (e : Enum.ComputerState) : (encode e).exact = encodeExact e.exact := by
  cases e <;> rfl

/-! ## Bounds on the counters -/

namespace Enum.Exact

/-- A running computer has not been idle for more than 1000, a sleeping one has not slept for
more than 500, and neither for longer than it has been on. -/
def Bounded : Exact → Prop
  | off => True
  | running uptime idleTime => idleTime ≤ 1000 ∧ idleTime ≤ uptime
  | sleeping uptime sleepTime => sleepTime ≤ 500 ∧ sleepTime ≤ uptime

variable {s : Exact} {uptime idleTime sleepTime : ℕ}

theorem passTime_sleeping (t : ℕ) :
    (sleeping uptime sleepTime).passTime t =
      if sleepTime + t ≤ 500 then sleeping (uptime + t) (sleepTime + t) else off := by
  show sleepFor uptime sleepTime t = _
  unfold sleepFor
  by_cases hoff : sleepTime + t ≤ 500
  · rw [if_pos hoff, if_neg (Nat.not_lt.mpr hoff)]
  · rw [if_neg hoff, if_pos (Nat.lt_of_not_le hoff)]

theorem passTime_asleep {t : ℕ} (h : 1000 < idleTime + t) :
    (running uptime idleTime).passTime t =
      (sleeping (uptime + (1000 - idleTime)) 0).passTime (idleTime + t - 1000) :=
  if_pos h

/-- What the uptime gains until the computer falls asleep and what it gains asleep make up all
of the time that passes. -/
theorem passTime_running (h : idleTime ≤ 1000) (t : ℕ) :
    (running uptime idleTime).passTime t =
      if idleTime + t ≤ 1000 then running (uptime + t) (idleTime + t)
      else if idleTime + t ≤ 1500 then sleeping (uptime + t) (idleTime + t - 1000)
      else off := by
  by_cases hawake : idleTime + t ≤ 1000
  · rw [if_pos hawake]
    exact if_neg (Nat.not_lt.mpr hawake)
  · rw [if_neg hawake]
    have huptime : uptime + (1000 - idleTime) + (idleTime + t - 1000) = uptime + t := by omega
    have hoff : idleTime + t - 1000 ≤ 500 ↔ idleTime + t ≤ 1500 := by omega
    rw [passTime_asleep (Nat.lt_of_not_le hawake), passTime_sleeping, huptime, Nat.zero_add]
    simp only [hoff]

theorem Bounded.passTime (h : s.Bounded) (t : ℕ) : (s.passTime t).Bounded := by
  cases s with
  | off => trivial
  | running uptime idleTime =>
      rw [passTime_running h.1]
      simp only [Bounded] at h
      split_ifs
      · exact ⟨by omega, by omega⟩
      · exact ⟨by omega, by omega⟩
      · trivial
  | sleeping uptime sleepTime =>
      rw [passTime_sleeping]
      simp only [Bounded] at h
      split_ifs
      · exact ⟨by omega, by omega⟩
      · trivial

theorem Bounded.pcTransition (h : s.Bounded) (event : Event) : (s.pcTransition event).Bounded := by
  cases event with
  | passTime t => cases s <;> exact h.passTime t.toNat
  | turnOn | turnOff | moveMouse =>
      cases s <;> simp_all [Exact.pcTransition, Bounded]

theorem bounded_run (events : List Event) : (run events).Bounded := by
  induction events using List.reverseRecOn with
  | nil => trivial
  | append_singleton events event ih =>
      rw [run, List.foldl_append]
      exact ih.pcTransition event

/-- **Time adds up**, also across the moments at which the computer falls asleep and switches
off. -/
theorem passTime_add (h : s.Bounded) (a b : ℕ) :
    (s.passTime a).passTime b = s.passTime (a + b) := by
  cases s with
  | off => rfl
  | running uptime idleTime =>
      rw [passTime_running h.1, passTime_running h.1]
      by_cases hawake : idleTime + a ≤ 1000
      · rw [if_pos hawake, passTime_running hawake, Nat.add_assoc, Nat.add_assoc]
      · rw [if_neg hawake, if_neg (show ¬ idleTime + (a + b) ≤ 1000 by omega)]
        by_cases hon : idleTime + a ≤ 1500
        · have hslept : idleTime + a - 1000 + b = idleTime + (a + b) - 1000 := by omega
          have hoff : idleTime + (a + b) - 1000 ≤ 500 ↔ idleTime + (a + b) ≤ 1500 := by omega
          rw [if_pos hon, passTime_sleeping, hslept, Nat.add_assoc]
          simp only [hoff]
        · rw [if_neg hon, if_neg (show ¬ idleTime + (a + b) ≤ 1500 by omega)]
          rfl
  | sleeping uptime sleepTime =>
      rw [passTime_sleeping, passTime_sleeping]
      by_cases hon : sleepTime + a ≤ 500
      · rw [if_pos hon, passTime_sleeping, Nat.add_assoc, Nat.add_assoc]
      · rw [if_neg hon, if_neg (by omega)]
        rfl

end Enum.Exact

/-! ## The exact versions correspond -/

private theorem pcTransition_encodeExact {s : Enum.Exact} (h : s.Bounded) (event : Event) :
    (encodeExact s).pcTransition event = encodeExact (s.pcTransition event) := by
  cases event with
  | turnOn | turnOff | moveMouse => cases s <;> rfl
  | passTime t =>
      cases s with
      | off => rfl
      | running uptime idleTime =>
          show (⟨true, false, idleTime, 0, uptime⟩ : Struct.Exact).passTime t.toNat =
            encodeExact ((Enum.Exact.running uptime idleTime).passTime t.toNat)
          rw [Enum.Exact.passTime_running h.1]
          rcases Nat.lt_or_ge 1000 (idleTime + t.toNat) with hasleep | hawake
          · have hoff : 500 < idleTime + t.toNat - 1000 ↔ ¬ idleTime + t.toNat ≤ 1500 := by omega
            by_cases hon : idleTime + t.toNat ≤ 1500 <;>
              simp [Struct.Exact.passTime, encodeExact, hasleep, Nat.not_le.mpr hasleep, hoff, hon]
          · simp [Struct.Exact.passTime, encodeExact, hawake, Nat.not_lt.mpr hawake]
      | sleeping uptime sleepTime =>
          show (⟨false, true, 0, sleepTime, uptime⟩ : Struct.Exact).passTime t.toNat =
            encodeExact ((Enum.Exact.sleeping uptime sleepTime).passTime t.toNat)
          rw [Enum.Exact.passTime_sleeping]
          rcases Nat.lt_or_ge 500 (sleepTime + t.toNat) with hoff | hon
          · simp [Struct.Exact.passTime, encodeExact, hoff, Nat.not_le.mpr hoff]
          · simp [Struct.Exact.passTime, encodeExact, hon, Nat.not_lt.mpr hon]

theorem run_encodeExact (events : List Event) :
    Struct.Exact.run events = encodeExact (Enum.Exact.run events) := by
  induction events using List.reverseRecOn with
  | nil => rfl
  | append_singleton events event ih =>
      rw [Struct.Exact.run, Enum.Exact.run, List.foldl_append, List.foldl_append]
      exact (congrArg (·.pcTransition event) ih).trans
        (pcTransition_encodeExact (Enum.Exact.bounded_run events) event)

/-! ## A debug build until it panics -/

namespace Enum

/-- Nothing overflows in the arm for the event: neither the counter of the state nor, where it is
computed, the uptime. -/
def Exact.Fits : Exact → Event → Prop
  | running uptime idleTime, .passTime t => idleTime + t.toNat < 2 ^ 32 ∧
      if idleTime + t.toNat ≤ 1500 then uptime + t.toNat < 2 ^ 32
      else uptime + (1000 - idleTime) < 2 ^ 32
  | sleeping uptime sleepTime, .passTime t => sleepTime + t.toNat < 2 ^ 32 ∧
      (sleepTime + t.toNat ≤ 500 → uptime + t.toNat < 2 ^ 32)
  | _, _ => True

/-- While the uptime fits, so does everything else. -/
theorem Exact.Bounded.fits {s : Exact} (h : s.Bounded) {t : UInt32}
    (huptime : s.uptime + t.toNat < 2 ^ 32) : s.Fits (.passTime t) := by
  cases s with
  | off => trivial
  | running uptime idleTime =>
      simp only [Exact.uptime] at huptime
      simp only [Bounded] at h
      refine ⟨by omega, ?_⟩
      split <;> omega
  | sleeping uptime sleepTime =>
      simp only [Exact.uptime] at huptime
      simp only [Bounded] at h
      exact ⟨by omega, fun _ => huptime⟩

open ComputerState

variable {e e' : ComputerState} {event : Event} {uptime idleTime sleepTime t : UInt32}

theorem sleeping_debug (h : pcTransition .debug (.sleeping uptime sleepTime) (.passTime t) =
    some e') : (ComputerState.sleeping uptime sleepTime).exact.Fits (.passTime t) ∧
      e'.exact = (ComputerState.sleeping uptime sleepTime).exact.passTime t.toNat := by
  simp only [pcTransition, Option.bind_eq_bind, Option.bind_eq_some_iff, Build.add_eq_some] at h
  obtain ⟨slept, hslept, h⟩ := h
  have hfits := slept.toNat_lt
  simp only [ComputerState.exact, Exact.passTime_sleeping, Exact.Fits, ← hslept]
  split at h
  · next hoff =>
      have hoff' : ¬ slept.toNat ≤ 500 := Nat.not_le.mpr hoff
      cases h
      exact ⟨⟨hfits, fun hon => absurd hon hoff'⟩, (if_neg hoff').symm⟩
  · next hon =>
      have hon' : slept.toNat ≤ 500 := Nat.le_of_not_lt hon
      simp only [Option.bind_eq_some_iff, Build.add_eq_some] at h
      obtain ⟨on, huptime, h⟩ := h
      cases h
      rw [← huptime, if_pos hon']
      exact ⟨⟨hfits, fun _ => on.toNat_lt⟩, rfl⟩

theorem running_debug (hidle : idleTime.toNat ≤ 1000)
    (h : pcTransition .debug (.running uptime idleTime) (.passTime t) = some e') :
    (ComputerState.running uptime idleTime).exact.Fits (.passTime t) ∧
      e'.exact = (ComputerState.running uptime idleTime).exact.passTime t.toNat := by
  rw [pcTransition, Option.bind_eq_bind, Option.bind_eq_some_iff] at h
  obtain ⟨idle, hadd, h⟩ := h
  have hidle' := Build.add_eq_some.mp hadd
  have hfits := idle.toNat_lt
  split at h
  · next hasleep =>
      have hasleep' : 1000 < idle.toNat := hasleep
      -- it falls asleep: the time is split at a thousand idle seconds
      simp only [hadd, Option.bind_some, Option.bind_eq_some_iff, Build.add_eq_some,
        Build.sub_eq_some] at h
      obtain ⟨rem, hrem, untilSleep, huntil, on, hon, h⟩ := h
      obtain ⟨⟨-, hslept⟩, hexact⟩ := sleeping_debug h
      have hthousand : (1000 : UInt32).toNat = 1000 := rfl
      have hrem' : rem.toNat = idleTime.toNat + t.toNat - 1000 := by omega
      have hon' : on.toNat = uptime.toNat + (1000 - idleTime.toNat) := by omega
      have hzero : (0 : UInt32).toNat = 0 := rfl
      refine ⟨⟨hidle' ▸ hfits, ?_⟩, ?_⟩
      · rw [hzero, Nat.zero_add] at hslept
        have := on.toNat_lt
        split <;> omega
      · rw [hexact]
        simp only [ComputerState.exact, hzero, hon', hrem']
        exact (Exact.passTime_asleep (hidle' ▸ hasleep')).symm
  · next hawake =>
      have hawake' : idle.toNat ≤ 1000 := Nat.le_of_not_lt hawake
      -- it stays awake
      simp only [hadd, Option.bind_some, Option.bind_eq_some_iff, Build.add_eq_some] at h
      obtain ⟨on, huptime, h⟩ := h
      cases h
      have := on.toNat_lt
      refine ⟨⟨hidle' ▸ hfits, by rw [if_pos (by omega)]; omega⟩, ?_⟩
      simp only [ComputerState.exact, newRunning, Exact.passTime_running hidle, ← hidle',
        ← huptime, if_pos hawake']

/-- **One event in a debug build.**  If it does not panic, nothing has overflowed, and the result
is the exact one. -/
theorem exact_of_debug (hbounded : e.exact.Bounded)
    (h : pcTransition .debug e event = some e') :
    e.exact.Fits event ∧ e'.exact = e.exact.pcTransition event := by
  cases event with
  | turnOn | turnOff | moveMouse =>
      cases e <;> rw [pcTransition] at h <;> cases h <;> exact ⟨trivial, rfl⟩
  | passTime t =>
      cases e with
      | off =>
          rw [pcTransition] at h
          cases h
          exact ⟨trivial, rfl⟩
      | running uptime idleTime => exact running_debug hbounded.1 h
      | sleeping uptime sleepTime => exact sleeping_debug h

private theorem exists_sleeping
    (h : (ComputerState.sleeping uptime sleepTime).exact.Fits (.passTime t)) :
    ∃ e', pcTransition .debug (.sleeping uptime sleepTime) (.passTime t) = some e' := by
  obtain ⟨hsleep, huptime⟩ := h
  obtain ⟨slept, hslept, hslept'⟩ := Build.exists_add hsleep
  simp only [pcTransition, hslept, Option.bind_eq_bind, Option.bind_some]
  split
  · exact ⟨.off, rfl⟩
  · next hon =>
      have hon' : slept.toNat ≤ 500 := Nat.le_of_not_lt hon
      obtain ⟨on, hadd, -⟩ := Build.exists_add (huptime (hslept' ▸ hon'))
      rw [hadd]
      exact ⟨_, rfl⟩

private theorem exists_running (hidle : idleTime.toNat ≤ 1000)
    (h : (ComputerState.running uptime idleTime).exact.Fits (.passTime t)) :
    ∃ e', pcTransition .debug (.running uptime idleTime) (.passTime t) = some e' := by
  obtain ⟨hfits, huptime⟩ := h
  obtain ⟨idle, hadd, hidle'⟩ := Build.exists_add hfits
  rw [← hidle'] at huptime
  rw [pcTransition, hadd, Option.bind_eq_bind, Option.bind_some]
  have hthousand : (1000 : UInt32).toNat = 1000 := rfl
  split
  · next hasleep =>
      have hasleep' : 1000 < idle.toNat := hasleep
      -- none of the subtractions goes below zero
      obtain ⟨rem, hrem, hrem'⟩ := Build.exists_sub (a := idle) (b := 1000) (by omega)
      obtain ⟨untilSleep, huntil, huntil'⟩ :=
        Build.exists_sub (a := 1000) (b := idleTime) (by omega)
      obtain ⟨on, hon, hon'⟩ := Build.exists_add (a := uptime) (b := untilSleep)
        (by split at huptime <;> omega)
      simp only [hrem, huntil, hon, Option.bind_some]
      have hzero : (0 : UInt32).toNat = 0 := rfl
      refine exists_sleeping ⟨by rw [hzero]; have := rem.toNat_lt; omega, fun hslept => ?_⟩
      rw [hzero] at hslept
      rw [if_pos (by omega)] at huptime
      omega
  · next hawake =>
      have hawake' : idle.toNat ≤ 1000 := Nat.le_of_not_lt hawake
      rw [if_pos (by omega)] at huptime
      obtain ⟨on, hon, -⟩ := Build.exists_add huptime
      simp only [hon, Option.bind_some]
      exact ⟨_, rfl⟩

theorem exists_of_fits (hbounded : e.exact.Bounded) (h : e.exact.Fits event) :
    ∃ e', pcTransition .debug e event = some e' := by
  cases event with
  | turnOn | turnOff | moveMouse => cases e <;> exact ⟨_, by rw [pcTransition]⟩
  | passTime t =>
      cases e with
      | off => exact ⟨_, by rw [pcTransition]⟩
      | running uptime idleTime => exact exists_running hbounded.1 h
      | sleeping uptime sleepTime => exact exists_sleeping h

theorem release_of_sleeping (h : pcTransition .debug (.sleeping uptime sleepTime) (.passTime t) =
    some e') : pcTransition .release (.sleeping uptime sleepTime) (.passTime t) = some e' := by
  simp only [pcTransition, Option.bind_eq_bind, Option.bind_eq_some_iff] at h ⊢
  obtain ⟨slept, hslept, h⟩ := h
  refine ⟨slept, Build.add_release_of_debug hslept, ?_⟩
  split at h
  · next hoff => rwa [if_pos hoff]
  · next hon =>
      rw [if_neg hon]
      rw [Option.bind_eq_some_iff] at h ⊢
      obtain ⟨on, huptime, h⟩ := h
      exact ⟨on, Build.add_release_of_debug huptime, h⟩

theorem release_of_running (h : pcTransition .debug (.running uptime idleTime) (.passTime t) =
    some e') : pcTransition .release (.running uptime idleTime) (.passTime t) = some e' := by
  rw [pcTransition, Option.bind_eq_bind, Option.bind_eq_some_iff] at h ⊢
  obtain ⟨idle, hadd, h⟩ := h
  have hadd' := Build.add_release_of_debug hadd
  refine ⟨idle, hadd', ?_⟩
  split at h
  · next hasleep =>
      rw [if_pos hasleep]
      simp only [hadd, hadd', Option.bind_some, Option.bind_eq_some_iff] at h ⊢
      obtain ⟨rem, hrem, untilSleep, huntil, on, hon, h⟩ := h
      exact ⟨rem, Build.sub_release_of_debug hrem, untilSleep, Build.sub_release_of_debug huntil,
        on, Build.add_release_of_debug hon, release_of_sleeping h⟩
  · next hawake =>
      rw [if_neg hawake]
      simp only [hadd, hadd', Option.bind_some, Option.bind_eq_some_iff] at h ⊢
      obtain ⟨on, huptime, h⟩ := h
      exact ⟨on, Build.add_release_of_debug huptime, h⟩

/-- What a debug build computes without a panic every build computes. -/
theorem build_of_debug (h : pcTransition .debug e event = some e') (build : Build) :
    pcTransition build e event = some e' := by
  cases build with
  | debug => exact h
  | release =>
      cases event with
      | turnOn | turnOff | moveMouse => cases e <;> rw [pcTransition] at h ⊢ <;> exact h
      | passTime t =>
          cases e with
          | off =>
              rw [pcTransition] at h ⊢
              exact h
          | running uptime idleTime => exact release_of_running h
          | sleeping uptime sleepTime => exact release_of_sleeping h

end Enum

namespace Struct

variable {uptime idleTime sleepTime t : UInt32}

private theorem passTime_debug_sleeping (hon : uptime.toNat + t.toNat < 2 ^ 32)
    (hsleep : sleepTime.toNat + t.toNat < 2 ^ 32) :
    passTime .debug (encode (.sleeping uptime sleepTime)) t =
      passTime .release (encode (.sleeping uptime sleepTime)) t := by
  simp [passTime, encode, ComputerState.isSleeping, Build.add_of_lt hon, Build.add_of_lt hsleep]

private theorem passTime_debug_running (hon : uptime.toNat + t.toNat < 2 ^ 32)
    (hidle : idleTime.toNat + t.toNat < 2 ^ 32) :
    passTime .debug (encode (.running uptime idleTime)) t =
      passTime .release (encode (.running uptime idleTime)) t := by
  by_cases hasleep : idleTime + t > 1000
  · have hzero : (0 : UInt32).toNat + (idleTime + t - 1000).toNat < 2 ^ 32 := by
      have := (idleTime + t - 1000).toNat_lt
      rw [show (0 : UInt32).toNat = 0 from rfl]
      omega
    have hle : 1000 ≤ idleTime + t := UInt32.le_of_lt hasleep
    simp [passTime, encode, ComputerState.isSleeping, ComputerState.runningToSleep,
      Build.add_of_lt hon, Build.add_of_lt hidle, Build.sub_of_le hle, Build.add_of_lt hzero,
      hasleep]
  · simp [passTime, encode, ComputerState.isSleeping, Build.add_of_lt hon, Build.add_of_lt hidle,
      hasleep]

/-- The uptime is always computed. -/
def Exact.Fits (computer : Exact) : Event → Prop
  | .passTime t => computer.isOn → computer.upTime + t.toNat < 2 ^ 32
  | _ => True

private theorem fits_of_debug {e : Enum.ComputerState} {event : Event} {s : ComputerState}
    (h : pcTransition .debug (encode e) event = some s) : (encode e).exact.Fits event := by
  cases event with
  | turnOn | turnOff | moveMouse => trivial
  | passTime t =>
      intro hon
      by_contra hfull
      have hadd : Build.debug.add (encode e).upTime t = none := if_neg hfull
      have hon' : (encode e).isOn = true := hon
      simp [pcTransition, passTime, hon', hadd] at h

/-- **One event.**  If the uptime fits, so does everything else, in both versions. -/
theorem pcTransition_of_fits {e : Enum.ComputerState} {event : Event} (hbounded : e.exact.Bounded)
    (hfits : (encode e).exact.Fits event) :
    ∃ e', Enum.pcTransition .debug e event = some e' ∧
      ∀ build, pcTransition build (encode e) event = some (encode e') := by
  -- the enum gets along with the event, since the struct does
  obtain ⟨e', he'⟩ : ∃ e', Enum.pcTransition .debug e event = some e' := by
    refine Enum.exists_of_fits hbounded ?_
    cases event with
    | turnOn | turnOff | moveMouse => cases e <;> trivial
    | passTime t =>
        cases e with
        | off => trivial
        | running uptime idleTime => exact hbounded.fits (hfits rfl)
        | sleeping uptime sleepTime => exact hbounded.fits (hfits rfl)
  have hrelease : pcTransition .release (encode e) event = some (encode e') := by
    rw [pcTransition_encode, Enum.build_of_debug he', Option.map_some]
  refine ⟨e', he', fun build => ?_⟩
  cases build with
  | release => exact hrelease
  | debug =>
      rw [← hrelease]
      -- what does not overflow is the same in both builds
      cases event with
      | turnOn | turnOff | moveMouse => rfl
      | passTime t =>
          cases e with
          | off => rfl
          | running uptime idleTime =>
              have huptime : uptime.toNat + t.toNat < 2 ^ 32 := hfits rfl
              have hidle : idleTime.toNat ≤ 1000 ∧ idleTime.toNat ≤ uptime.toNat := hbounded
              exact passTime_debug_running huptime (by omega)
          | sleeping uptime sleepTime =>
              have huptime : uptime.toNat + t.toNat < 2 ^ 32 := hfits rfl
              have hsleep : sleepTime.toNat ≤ 500 ∧ sleepTime.toNat ≤ uptime.toNat := hbounded
              exact passTime_debug_sleeping huptime (by omega)

end Struct

/-! ## Runs -/

/-- Every event of the run fits the state that it finds. -/
def EveryEvent {σ : Type} (run : List Event → σ) (fits : σ → Event → Prop)
    (events : List Event) : Prop :=
  ∀ before event after, events = before ++ event :: after → fits (run before) event

theorem everyEvent_concat {σ : Type} {run : List Event → σ} {fits : σ → Event → Prop}
    {events : List Event} {event : Event} :
    EveryEvent run fits (events ++ [event]) ↔
      EveryEvent run fits events ∧ fits (run events) event := by
  constructor
  · intro h
    refine ⟨fun before event' after heq => ?_, h events event [] rfl⟩
    exact h before event' (after ++ [event]) (by simp [heq])
  · rintro ⟨hevents, hevent⟩ before event' after heq
    rcases List.eq_nil_or_concat after with rfl | ⟨after, last, rfl⟩
    · obtain ⟨rfl, hlast⟩ := List.append_inj' heq rfl
      cases hlast
      exact hevent
    · rw [List.concat_eq_append, ← List.cons_append, ← List.append_assoc] at heq
      obtain ⟨rfl, -⟩ := List.append_inj' heq rfl
      exact hevents before event' after rfl

/-- Every event of a run of the enum version fits. -/
def Enum.InRange : List Event → Prop := EveryEvent Enum.Exact.run Enum.Exact.Fits

/-- Every event of a run of the struct version fits. -/
def Struct.InRange : List Event → Prop := EveryEvent Struct.Exact.run Struct.Exact.Fits

theorem Enum.run_concat (build : Build) (events : List Event) (event : Event) :
    Enum.run build (events ++ [event]) =
      (Enum.run build events).bind fun e => Enum.pcTransition build e event := by
  simp [Enum.run]

theorem Struct.run_concat (build : Build) (events : List Event) (event : Event) :
    Struct.run build (events ++ [event]) =
      (Struct.run build events).bind fun s => Struct.pcTransition build s event := by
  simp [Struct.run]

theorem Enum.Exact.run_concat (events : List Event) (event : Event) :
    Enum.Exact.run (events ++ [event]) = (Enum.Exact.run events).pcTransition event := by
  simp [Enum.Exact.run]

/-- **A debug build that has not panicked** has the exact state. -/
theorem Enum.exact_of_run {events : List Event} {e : Enum.ComputerState}
    (h : Enum.run .debug events = some e) :
    Enum.InRange events ∧ e.exact = Enum.Exact.run events := by
  induction events using List.reverseRecOn generalizing e with
  | nil =>
      cases h
      exact ⟨fun before event after heq => absurd heq (by simp), rfl⟩
  | append_singleton events event ih =>
      rw [Enum.run_concat, Option.bind_eq_some_iff] at h
      obtain ⟨e₀, hrun, hevent⟩ := h
      obtain ⟨hrange, hexact⟩ := ih hrun
      have hbounded : e₀.exact.Bounded := hexact ▸ Enum.Exact.bounded_run events
      obtain ⟨hfits, hexact'⟩ := Enum.exact_of_debug hbounded hevent
      rw [hexact] at hfits hexact'
      exact ⟨everyEvent_concat.mpr ⟨hrange, hfits⟩, by rw [hexact', Enum.Exact.run_concat]⟩

theorem Enum.run_of_inRange {events : List Event} (h : Enum.InRange events) :
    ∃ e, ∀ build, Enum.run build events = some e := by
  induction events using List.reverseRecOn with
  | nil => exact ⟨.off, fun _ => rfl⟩
  | append_singleton events event ih =>
      obtain ⟨hrange, hfits⟩ := everyEvent_concat.mp h
      obtain ⟨e, hrun⟩ := ih hrange
      obtain ⟨-, hexact⟩ := Enum.exact_of_run (hrun .debug)
      rw [← hexact] at hfits
      have hbounded : e.exact.Bounded := hexact ▸ Enum.Exact.bounded_run events
      obtain ⟨e', hevent⟩ := Enum.exists_of_fits hbounded hfits
      refine ⟨e', fun build => ?_⟩
      rw [Enum.run_concat, hrun build, Option.bind_some, Enum.build_of_debug hevent]

/-- The struct version is at the encoding of the enum version, which has not panicked either. -/
theorem Struct.run_of_inRange {events : List Event} (h : Struct.InRange events) :
    ∃ e, Enum.run .debug events = some e ∧ ∀ build, Struct.run build events = some (encode e) := by
  induction events using List.reverseRecOn with
  | nil => exact ⟨.off, rfl, fun _ => rfl⟩
  | append_singleton events event ih =>
      obtain ⟨hrange, hfits⟩ := everyEvent_concat.mp h
      obtain ⟨e, henum, hrun⟩ := ih hrange
      obtain ⟨-, hexact⟩ := Enum.exact_of_run henum
      have hbounded : e.exact.Bounded := hexact ▸ Enum.Exact.bounded_run events
      rw [run_encodeExact, ← hexact, ← exact_encode] at hfits
      obtain ⟨e', henum', hevent⟩ := Struct.pcTransition_of_fits hbounded hfits
      refine ⟨e', ?_, fun build => ?_⟩
      · rw [Enum.run_concat, henum, Option.bind_some, henum']
      · rw [Struct.run_concat, hrun build, Option.bind_some, hevent]

theorem Struct.inRange_of_run {events : List Event} {s : Struct.ComputerState}
    (h : Struct.run .debug events = some s) : Struct.InRange events := by
  induction events using List.reverseRecOn generalizing s with
  | nil => exact fun before event after heq => absurd heq (by simp)
  | append_singleton events event ih =>
      rw [Struct.run_concat, Option.bind_eq_some_iff] at h
      obtain ⟨s₀, hrun, hevent⟩ := h
      have hrange := ih hrun
      obtain ⟨e, henum, hencode⟩ := Struct.run_of_inRange hrange
      obtain ⟨-, hexact⟩ := Enum.exact_of_run henum
      obtain rfl : encode e = s₀ := Option.some.inj ((hencode .debug).symm.trans hrun)
      have hfits := Struct.fits_of_debug hevent
      rw [exact_encode, hexact, ← run_encodeExact] at hfits
      exact everyEvent_concat.mpr ⟨hrange, hfits⟩

/-! ## Exact runs -/

/-- **No overflow, in either version, exactly while every event fits.**  Then both are in the
exact state in every build; and a running computer that is idle for more than 1500 time units
is off. -/
theorem exact_iff_inRange (events : List Event) :
    ((∀ build, ∃ e, Enum.run build events = some e ∧ e.exact = Enum.Exact.run events) ↔
      Enum.InRange events) ∧
    ((∀ build, ∃ s, Struct.run build events = some s ∧ s.exact = Struct.Exact.run events) ↔
      Struct.InRange events) ∧
    ∀ uptime idleTime t, Enum.Exact.run events = .running uptime idleTime →
      1500 < idleTime + t.toNat → Enum.Exact.run (events ++ [.passTime t]) = .off := by
  refine ⟨⟨fun h => ?_, fun h build => ?_⟩, ⟨fun h => ?_, fun h build => ?_⟩, ?_⟩
  · obtain ⟨e, hrun, -⟩ := h .debug
    exact (Enum.exact_of_run hrun).1
  · obtain ⟨e, hrun⟩ := Enum.run_of_inRange h
    exact ⟨e, hrun build, (Enum.exact_of_run (hrun .debug)).2⟩
  · obtain ⟨s, hrun, -⟩ := h .debug
    exact Struct.inRange_of_run hrun
  · obtain ⟨e, henum, hrun⟩ := Struct.run_of_inRange h
    refine ⟨encode e, hrun build, ?_⟩
    rw [exact_encode, (Enum.exact_of_run henum).2, run_encodeExact]
  · intro uptime idleTime t hrun hidle
    have hbounded := Enum.Exact.bounded_run events
    rw [Enum.Exact.run_concat, hrun]
    rw [hrun] at hbounded
    refine (Enum.Exact.passTime_running hbounded.1 t.toNat).trans ?_
    rw [if_neg (by omega), if_neg (by omega)]

/-- A computer that has been idle for a moment overflows where it should switch off; a release
build starts its counters over and keeps it running. -/
theorem passTime_overflows :
    Enum.run .debug [.turnOn, .passTime 1] = some (.running 1 1) ∧
      Enum.pcTransition .debug (.running 1 1) (.passTime 4294967295) = none ∧
      Struct.run .debug [.turnOn, .passTime 1] = some (encode (.running 1 1)) ∧
      Struct.pcTransition .debug (encode (.running 1 1)) (.passTime 4294967295) = none ∧
      Enum.Exact.run [.turnOn, .passTime 1, .passTime 4294967295] = .off ∧
      Enum.pcTransition .release (.running 1 1) (.passTime 4294967295) = some (.running 0 0) := by
  refine ⟨?_, ?_, by decide, by decide, by decide, ?_⟩
  · simp [Enum.run, Enum.pcTransition, Enum.ComputerState.newRunning, Build.add_debug]
  · simp [Enum.pcTransition, Build.add_debug]
  · rw [Enum.pcTransition_running]
    decide

/-! ## Time adds up -/

theorem Enum.exact_injective {e e' : Enum.ComputerState} (h : e.exact = e'.exact) : e = e' := by
  cases e <;> cases e' <;> simp_all [Enum.ComputerState.exact, UInt32.toNat_inj]

theorem Enum.Exact.uptime_passTime {s : Enum.Exact} (h : s.Bounded) (t : ℕ) :
    (s.passTime t).uptime ≤ s.uptime + t := by
  cases s with
  | off => exact Nat.zero_le _
  | running uptime idleTime =>
      rw [passTime_running h.1]
      split_ifs <;> simp [Exact.uptime]
  | sleeping uptime sleepTime =>
      rw [passTime_sleeping]
      split_ifs <;> simp [Exact.uptime]

/-- A delay that fits is the exact one, in every build. -/
theorem Enum.exists_passTime {e : Enum.ComputerState} {t : UInt32} (hbounded : e.exact.Bounded)
    (huptime : e.exact.uptime + t.toNat < 2 ^ 32) :
    ∃ e', e'.exact = e.exact.passTime t.toNat ∧
      ∀ build, Enum.pcTransition build e (.passTime t) = some e' := by
  obtain ⟨e', he'⟩ := Enum.exists_of_fits hbounded (hbounded.fits huptime)
  refine ⟨e', ?_, Enum.build_of_debug he'⟩
  rw [(Enum.exact_of_debug hbounded he').2]
  cases e <;> rfl

/-- **Passing time is additive**: two delays are one, from every state that is reached without
an overflow, while the uptime fits. -/
theorem passTime_passTime {events : List Event} {e : Enum.ComputerState}
    (hrun : Enum.run .debug events = some e) {a b : UInt32}
    (huptime : e.exact.uptime + a.toNat + b.toNat < 2 ^ 32) (build : Build) :
    ∃ e₁ e₂, Enum.pcTransition build e (.passTime a) = some e₁ ∧
      Enum.pcTransition build e₁ (.passTime b) = some e₂ ∧
      Enum.pcTransition build e (.passTime (a + b)) = some e₂ := by
  obtain ⟨-, hexact⟩ := Enum.exact_of_run hrun
  have hbounded : e.exact.Bounded := hexact ▸ Enum.Exact.bounded_run events
  have hsum : (a + b).toNat = a.toNat + b.toNat := by
    rw [UInt32.toNat_add, Nat.mod_eq_of_lt (by omega)]
  obtain ⟨e₁, hexact₁, h₁⟩ := Enum.exists_passTime (t := a) hbounded (by omega)
  have hbounded₁ : e₁.exact.Bounded := hexact₁ ▸ hbounded.passTime a.toNat
  have huptime₁ : e₁.exact.uptime ≤ e.exact.uptime + a.toNat :=
    hexact₁ ▸ Enum.Exact.uptime_passTime hbounded a.toNat
  obtain ⟨e₂, hexact₂, h₂⟩ := Enum.exists_passTime (t := b) hbounded₁ (by omega)
  obtain ⟨e₃, hexact₃, h₃⟩ := Enum.exists_passTime (t := a + b) hbounded (by omega)
  have heq : e₃ = e₂ := by
    refine Enum.exact_injective ?_
    rw [hexact₃, hexact₂, hexact₁, hsum, Enum.Exact.passTime_add hbounded]
  exact ⟨e₁, e₂, h₁ build, h₂ build, heq ▸ h₃ build⟩

/-- A delay that is cut while the computer sleeps. -/
theorem passTime_passTime_asleep :
    ∃ e₁ e₂, Enum.pcTransition .debug (.running 700 600) (.passTime 700) = some e₁ ∧
      Enum.pcTransition .debug e₁ (.passTime 300) = some e₂ ∧
      Enum.pcTransition .debug (.running 700 600) (.passTime (700 + 300)) = some e₂ := by
  have hrun : Enum.run .debug [.turnOn, .passTime 100, .moveMouse, .passTime 600] =
      some (.running 700 600) := by
    simp [Enum.run, Enum.pcTransition, Enum.ComputerState.newRunning, Build.add_debug]
  exact passTime_passTime hrun (by decide) .debug

end RustCourse.Lesson02
