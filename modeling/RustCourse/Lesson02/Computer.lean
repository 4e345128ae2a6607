import RustCourse.Lib.Word

/-!
# The computer of lesson 02, twice

A computer is off, running or sleeping; time that passes sends it to sleep and switches it
off.  `lessons/02/exercises/tests/03_state_transition_struct.rs` keeps flags and counters
in a struct and mutates them, `04_state_transition_enum.rs` keeps an enum and matches on
it.  `transitions_correspond` says that in a release build, where all arithmetic is modulo
2^32, the two versions correspond after every sequence of events, also where counters wrap
around.

The relation between the two (`Corresponds`) needs the counters that the enum does not
have: in the struct the idle time of a sleeping computer and the sleep time of a running
one are zero, and since they are, the chain of `if`s takes the branch that the `match`
takes.

## Strategy

`encode` maps a state of the enum to one of the struct, with zeros for the counters that the
enum lacks.  One event commutes with it (`pcTransition_encode`), by cases on the state, and
so do all events (`foldlM_encode`).  The comparison is made in the release build only, where
neither version panics (`Enum.exists_pcTransition`).
-/

namespace RustCourse.Lesson02

/-- What happens to the computer. -/
inductive Event
  | turnOn
  | turnOff
  | passTime (t : UInt32)
  | moveMouse
  deriving DecidableEq, Repr

/-! ## Flags and counters -/

namespace Struct

/-- The version of the struct with flags. -/
structure ComputerState where
  running : Bool
  sleeping : Bool
  idleTime : UInt32
  sleepTime : UInt32
  upTime : UInt32
  deriving DecidableEq, Repr

namespace ComputerState

/-- `ComputerState::new_off` -/
def newOff : ComputerState where
  running := false
  sleeping := false
  idleTime := 0
  sleepTime := 0
  upTime := 0

/-- `ComputerState::new_on` -/
def newOn : ComputerState :=
  { newOff with running := true }

/-- `is_on` -/
def isOn (computer : ComputerState) : Bool :=
  computer.running || computer.sleeping

/-- `is_sleeping` -/
def isSleeping (computer : ComputerState) : Bool :=
  computer.sleeping

/-- `running_to_sleep` -/
def runningToSleep (computer : ComputerState) : ComputerState :=
  { computer with running := false, sleeping := true, idleTime := 0 }

/-- `sleep_to_running` -/
def sleepToRunning (computer : ComputerState) : ComputerState :=
  { computer with running := true, sleeping := false, sleepTime := 0 }

end ComputerState

open ComputerState

/-- The arm `Event::PassTime(mut time) if computer.is_on()`. -/
def passTime (build : Build) (computer : ComputerState) (time : UInt32) :
    Option ComputerState := do
  let mut computer := computer
  let mut time := time
  computer := { computer with upTime := ← build.add computer.upTime time }
  if computer.running then
    computer := { computer with idleTime := ← build.add computer.idleTime time }
  if computer.idleTime > 1000 then
    time ← build.sub computer.idleTime 1000
    computer := computer.runningToSleep
  if computer.isSleeping then
    computer := { computer with sleepTime := ← build.add computer.sleepTime time }
  if computer.sleepTime > 500 then
    return newOff
  return computer

/-- `pc_transition`; `none` is a panic. -/
def pcTransition (build : Build) (computer : ComputerState) : Event → Option ComputerState
  | .turnOn => some (if !computer.isOn then newOn else computer)
  | .turnOff => some newOff
  | .moveMouse =>
      some (if computer.running then { computer with idleTime := 0 }
        else if computer.sleeping then computer.sleepToRunning
        else computer)
  | .passTime time => if computer.isOn then passTime build computer time else some computer

/-- The state after a sequence of events, from a computer that is off. -/
def run (build : Build) (events : List Event) : Option ComputerState :=
  events.foldlM (pcTransition build) newOff

end Struct

/-! ## One variant for every state -/

namespace Enum

/-- The version of the enum, whose variants have the counters they need. -/
inductive ComputerState
  | off
  | running (uptime idleTime : UInt32)
  | sleeping (uptime sleepTime : UInt32)
  deriving DecidableEq, Repr

namespace ComputerState

/-- `ComputerState::new_running` -/
def newRunning (uptime idleTime : UInt32) : ComputerState :=
  running uptime idleTime

/-- `ComputerState::new_sleeping` -/
def newSleeping (uptime sleepTime : UInt32) : ComputerState :=
  sleeping uptime sleepTime

/-- A running computer that falls asleep goes on as a sleeping one. -/
def wakefulness : ComputerState → ℕ
  | off => 0
  | running _ _ => 1
  | sleeping _ _ => 0

end ComputerState

open ComputerState

/-- `pc_transition`; `none` is a panic. -/
def pcTransition (build : Build) (computer : ComputerState) (event : Event) :
    Option ComputerState :=
  match computer, event with
  | .off, .turnOn => some (newRunning 0 0)
  | .running _ _, .turnOn | .sleeping _ _, .turnOn => some computer
  | .off, .moveMouse | .off, .turnOff | .off, .passTime _ => some computer
  | .running _ _, .turnOff | .sleeping _ _, .turnOff => some .off
  | .running uptime _, .moveMouse => some (newRunning uptime 0)
  | .sleeping uptime _, .moveMouse => some (newRunning uptime 0)
  | .sleeping uptime sleepTime, .passTime t => do
      let sleepTime ← build.add sleepTime t
      if sleepTime > 500 then return .off
      else return newSleeping (← build.add uptime t) sleepTime
  | .running uptime idleTime, .passTime t => do
      if (← build.add idleTime t) > 1000 then
        let remTime ← build.sub (← build.add idleTime t) 1000
        let timeUntilSleep ← build.sub 1000 idleTime
        pcTransition build (newSleeping (← build.add uptime timeUntilSleep) 0) (.passTime remTime)
      else return newRunning (← build.add uptime t) (← build.add idleTime t)
termination_by computer.wakefulness
decreasing_by simp [newSleeping, wakefulness]

def run (build : Build) (events : List Event) : Option ComputerState :=
  events.foldlM (pcTransition build) .off

end Enum

/-! ## The two versions correspond -/

/-- The struct for a variant; the counters that the variant does not have are zero. -/
def encode : Enum.ComputerState → Struct.ComputerState
  | .off => .newOff
  | .running uptime idleTime => ⟨true, false, idleTime, 0, uptime⟩
  | .sleeping uptime sleepTime => ⟨false, true, 0, sleepTime, uptime⟩

/-- When the struct corresponds to the variant. -/
structure Corresponds (s : Struct.ComputerState) (e : Enum.ComputerState) : Prop where
  off : e = .off ↔ s.running = false ∧ s.sleeping = false ∧
    s.idleTime = 0 ∧ s.sleepTime = 0 ∧ s.upTime = 0
  running : ∀ uptime idleTime, e = .running uptime idleTime ↔
    s.running = true ∧ s.sleeping = false ∧
      s.upTime = uptime ∧ s.idleTime = idleTime ∧ s.sleepTime = 0
  sleeping : ∀ uptime sleepTime, e = .sleeping uptime sleepTime ↔
    s.sleeping = true ∧ s.running = false ∧
      s.upTime = uptime ∧ s.sleepTime = sleepTime ∧ s.idleTime = 0

theorem corresponds_encode (e : Enum.ComputerState) : Corresponds (encode e) e := by
  constructor <;> cases e <;> simp [encode, Struct.ComputerState.newOff]

/-- A sleeping computer lets time pass in the same way in both versions. -/
theorem passTime_sleeping (uptime sleepTime t : UInt32) :
    Struct.passTime .release (encode (.sleeping uptime sleepTime)) t =
      some (encode (if sleepTime + t > 500 then .off
        else .sleeping (uptime + t) (sleepTime + t))) := by
  by_cases hoff : sleepTime + t > 500 <;>
    simp [Struct.passTime, encode, Struct.ComputerState.isSleeping, hoff]

theorem passTime_running (uptime idleTime t : UInt32) :
    Struct.passTime .release (encode (.running uptime idleTime)) t =
      some (encode (if idleTime + t > 1000 then
        if idleTime + t - 1000 > 500 then .off
        else .sleeping (uptime + t) (idleTime + t - 1000)
        else .running (uptime + t) (idleTime + t))) := by
  by_cases hsleep : idleTime + t > 1000
  · by_cases hoff : idleTime + t - 1000 > 500 <;>
      simp [Struct.passTime, encode, Struct.ComputerState.isSleeping,
        Struct.ComputerState.runningToSleep, hsleep, hoff]
  · simp [Struct.passTime, encode, Struct.ComputerState.isSleeping, hsleep]

/-- The enum lets time pass for a sleeping computer. -/
theorem Enum.pcTransition_sleeping (uptime sleepTime t : UInt32) :
    Enum.pcTransition .release (.sleeping uptime sleepTime) (.passTime t) =
      some (if sleepTime + t > 500 then .off else .sleeping (uptime + t) (sleepTime + t)) := by
  rw [Enum.pcTransition]
  by_cases hoff : sleepTime + t > 500 <;> simp [Enum.ComputerState.newSleeping, hoff]

/-- A running computer that falls asleep sleeps for the time that is left; what it gains until
then and what it gains asleep make up all of the time that passes. -/
theorem Enum.pcTransition_running (uptime idleTime t : UInt32) :
    Enum.pcTransition .release (.running uptime idleTime) (.passTime t) =
      some (if idleTime + t > 1000 then
        if idleTime + t - 1000 > 500 then .off
        else .sleeping (uptime + t) (idleTime + t - 1000)
        else .running (uptime + t) (idleTime + t)) := by
  rw [Enum.pcTransition]
  by_cases hsleep : idleTime + t > 1000
  · have huptime : uptime + (1000 - idleTime) + (idleTime + t - 1000) = uptime + t := by grind
    simp [Enum.ComputerState.newSleeping, Enum.pcTransition_sleeping, hsleep, huptime]
  · simp [Enum.ComputerState.newRunning, hsleep]

/-! ## One event -/

/-- **One event.**  The struct makes of the encoding what the enum makes of the variant. -/
theorem pcTransition_encode (e : Enum.ComputerState) (event : Event) :
    Struct.pcTransition .release (encode e) event =
      (Enum.pcTransition .release e event).map encode := by
  cases event with
  | turnOn | turnOff | moveMouse =>
      cases e <;> rw [Enum.pcTransition] <;> rfl
  | passTime t =>
      cases e with
      | off =>
          rw [Enum.pcTransition]
          rfl
      | sleeping uptime sleepTime =>
          rw [Enum.pcTransition_sleeping]
          exact passTime_sleeping uptime sleepTime t
      | running uptime idleTime =>
          rw [Enum.pcTransition_running]
          exact passTime_running uptime idleTime t

/-- A release build of the enum version never panics. -/
theorem Enum.exists_pcTransition (e : Enum.ComputerState) (event : Event) :
    ∃ e', Enum.pcTransition .release e event = some e' := by
  cases event with
  | turnOn | turnOff | moveMouse =>
      cases e <;> exact ⟨_, by rw [Enum.pcTransition]⟩
  | passTime t =>
      cases e with
      | off => exact ⟨_, by rw [Enum.pcTransition]⟩
      | sleeping uptime sleepTime => exact ⟨_, Enum.pcTransition_sleeping uptime sleepTime t⟩
      | running uptime idleTime => exact ⟨_, Enum.pcTransition_running uptime idleTime t⟩

/-! ## All events -/

/-- **Every sequence of events**, from corresponding states. -/
theorem foldlM_encode (e : Enum.ComputerState) (events : List Event) :
    ∃ e', events.foldlM (Enum.pcTransition .release) e = some e' ∧
      events.foldlM (Struct.pcTransition .release) (encode e) = some (encode e') := by
  induction events generalizing e with
  | nil => exact ⟨e, rfl, rfl⟩
  | cons event events ih =>
      obtain ⟨next, hnext⟩ := Enum.exists_pcTransition e event
      obtain ⟨e', henum, hstruct⟩ := ih next
      refine ⟨e', ?_, ?_⟩
      · simpa [List.foldlM_cons, hnext] using henum
      · simpa [List.foldlM_cons, pcTransition_encode, hnext] using hstruct

/-- **The two versions of the computer correspond** after every sequence of events, in a
release build. -/
theorem transitions_correspond (events : List Event) :
    ∃ s e, Struct.run .release events = some s ∧ Enum.run .release events = some e ∧
      Corresponds s e := by
  obtain ⟨e, henum, hstruct⟩ := foldlM_encode .off events
  exact ⟨encode e, e, hstruct, henum, corresponds_encode e⟩

/-- The counters of a running computer wrap around. -/
example : Struct.run .release [.turnOn, .passTime 900, .passTime 4294967295] =
    some (encode (.running 899 899)) := by
  decide

end RustCourse.Lesson02
