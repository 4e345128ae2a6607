import Mathlib.Algebra.Ring.Nat
import RustCourse.Assembly.Cpu
import RustCourse.Lib.Text

/-!
# What both interpreters run on

The trait `Value`, and the effects of `execute_instruction`: it reads and writes the CPU it
borrows, prints, and returns early at a `?`.  An error leaves what has been done before it
in place, so the state is kept beside the error.

The arithmetic of a `Value` is that of its type, and `u8` overflows; `none` is that panic.

## Strategy

An effect of the source is one operation of `Exec`, and `execute_instruction` is a `do` block
of them.  Results about instructions are put together from rules for the single effects, so
the equations below say once what an effect does to a machine, when it fails and when it
panics.  Whether a failure is an `Err` that the caller sees or a panic is part of `Failure`.
-/

namespace RustCourse.Assembly

/-! ## Values -/

/-- What the stages need of a type of values. -/
class Value (T : Type) where
  parse : Str → Except String T
  /-- `Add::add` -/
  add : T → T → Option T
  /-- `Sub::sub` -/
  sub : T → T → Option T

/-- `format!("{error:?}")` for the `ParseIntError` of a kind. -/
def formatIntError : Str.IntErrorKind → String
  | .empty => "ParseIntError \x7b kind: Empty \x7d"
  | .invalidDigit => "ParseIntError \x7b kind: InvalidDigit \x7d"
  | .posOverflow => "ParseIntError \x7b kind: PosOverflow \x7d"

instance : Value UInt8 where
  parse input :=
    (Str.parseU8 input).mapError fun error => "Cannot parse u8: " ++ formatIntError error
  add a b := if a.toNat + b.toNat < 2 ^ 8 then some (a + b) else none
  sub a b := if b ≤ a then some (a - b) else none

/-! ## Machines and their errors -/

/-- The CPU and what has been printed. -/
structure Machine (T : Type) where
  cpu : Cpu T
  printed : List T
  deriving DecidableEq, Repr

/-- An `Err`, or one of the two panics an interpreter has. -/
inductive Failure (E : Type)
  | error (e : E)
  | overflow
  | indexOutOfBounds
  deriving DecidableEq, Repr

/-- `impl From<ReadError>` and `impl From<WriteError>` for an `ExecutionError`. -/
class FromError (E : Type) where
  read : ReadError → E
  write : WriteError → E

/-! ## Effects -/

/-- A computation with the machine, which may fail. -/
abbrev Exec (E T : Type) := EStateM (Failure E) (Machine T)

namespace Exec

variable {E T : Type}

/-- `cpu.read(expr)?` -/
def read [FromError E] (expr : ReadableExpr T) : Exec E T T := do
  match (← get).cpu.read expr with
  | .ok value => return value
  | .error e => throw (.error (FromError.read e))

/-- `cpu.write(expr, value)?` -/
def write [FromError E] (expr : WritableExpr) (value : T) : Exec E T Unit := do
  match (← get).cpu.write expr value with
  | .ok cpu => modify fun machine => { machine with cpu }
  | .error e => throw (.error (FromError.write e))

/-- `println!("{value}")` -/
def println (value : T) : Exec E T Unit :=
  modify fun machine => { machine with printed := machine.printed ++ [value] }

/-- A result of arithmetic, or its panic. -/
def checked {α : Type} : Option α → Exec E T α
  | some value => return value
  | none => throw .overflow

/-! ## What the effects do -/

section Run

variable [FromError E] {machine : Machine T} {expr : ReadableExpr T} {dest : WritableExpr}
  {value : T}

omit [FromError E] in
@[simp] theorem run_throw {α : Type} {failure : Failure E} :
    (throw failure : Exec E T α).run machine = .error failure machine := rfl

@[simp] theorem run_read :
    (read expr : Exec E T T).run machine =
      match machine.cpu.read expr with
      | .ok value => .ok value machine
      | .error e => .error (.error (FromError.read e)) machine := by
  cases h : machine.cpu.read expr <;> simp [read, h]

@[simp] theorem run_write :
    (write dest value : Exec E T Unit).run machine =
      match machine.cpu.write dest value with
      | .ok cpu => .ok () { machine with cpu }
      | .error e => .error (.error (FromError.write e)) machine := by
  cases h : machine.cpu.write dest value <;> simp [write, h]

omit [FromError E] in
@[simp] theorem run_checked {α : Type} {result : Option α} :
    (checked result : Exec E T α).run machine =
      match result with
      | some value => .ok value machine
      | none => .error .overflow machine := by
  cases result <;> simp [checked]

end Run

end Exec

end RustCourse.Assembly
