import RustCourse.Assembly.Parser
import RustCourse.Lib.HashMap
import RustCourse.Lib.Fallible
import Mathlib.Logic.Relation

/-!
# The interpreter with labels and jumps

`archive/2023/projects/assembly-interpret/04`: a program has labels, and a loop fetches the
instruction under the instruction pointer.  The loop need not end, so `iterate` is one
evaluation of its condition together with its body, and `executeProgram` runs it a given
number of times; `Step` and `Reaches` are about runs of any length.

The operands of `JNZ` are taken from an iterator with `next().unwrap()`, which panics where
there is no second one.

A line of the text is a label, an instruction or blank, and `Accepts` says which of the three
the loop of `parse_program` has taken.  Results about programs go through it, so they need not
look into the order in which `parse_line` tries things.
-/

namespace RustCourse.Assembly.Stage04

open Str Fallible

/-! ## Programs -/

/-- Stage 04 asks a value whether it is zero. -/
class Value (T : Type) extends Assembly.Value T where
  isZero : T → Bool

instance : Value UInt8 where
  isZero value := value == 0

/-- The instructions of stage 04. -/
inductive Instruction (T : Type)
  | set (dest : WritableExpr) (src : ReadableExpr T)
  | print (expr : ReadableExpr T)
  | add (dest : WritableExpr) (src : ReadableExpr T)
  | sub (dest : WritableExpr) (src : ReadableExpr T)
  | jumpIfNotZero (src : ReadableExpr T) (label : Str)
  deriving DecidableEq, Repr

/-- Why an instruction fails. -/
inductive ExecutionError
  | read (e : ReadError)
  | write (e : WriteError)
  | instructionOutOfBounds (ip : UInt64)
  | invalidLabel (label : Str)
  deriving DecidableEq, Repr

instance : FromError ExecutionError where
  read := .read
  write := .write

/-- What the parser returns; a label stands for the index of an instruction. -/
structure Program (T : Type) where
  instructions : List (Instruction T)
  labels : HashMap Str ℕ

/-- `Program::resolve_label` -/
def Program.resolveLabel {T : Type} (program : Program T) (label : Str) : Option ℕ :=
  program.labels.lookup label

variable {T : Type} [Value T]

/-! ## The parser -/

/-- `parse_program` returns an error or panics. -/
inductive ParseFailure
  | error (e : ParseError)
  | panic
  deriving DecidableEq, Repr

instance : MonadLift (Except ParseError) (Except ParseFailure) where
  monadLift := Except.mapError .error

/-- `args.next().unwrap()`, with what is left of the iterator. -/
def nextUnwrap : List Str → Except ParseFailure (Str × List Str)
  | [] => .error .panic
  | arg :: args => .ok (arg, args)

/-- The arms of `match command` that make an instruction. -/
def parseInstruction (line : ℕ) (command args : Str) :
    Option (Except ParseFailure (Instruction T)) :=
  if command = "MOV".toList then some do
    let (dest, src) ← parseDestSrc line args
    return .set dest src
  else if command = "ADD".toList then some do
    let (dest, src) ← parseDestSrc line args
    return .add dest src
  else if command = "SUB".toList then some do
    let (dest, src) ← parseDestSrc line args
    return .sub dest src
  else if command = "PRINT".toList then some do
    let expr ← addLine line (parseReadableExpr args)
    return .print expr
  else if command = "JNZ".toList then some do
    let (arg, args) ← nextUnwrap (args.splitOn ',')
    let src ← addLine line (parseReadableExpr arg)
    let (label, _) ← nextUnwrap args
    return .jumpIfNotZero src (trim label)
  else none

/-- The body of the loop over the lines. -/
def parseLine (program : Program T) : Str × ℕ → Except ParseFailure (Program T)
  | (text, line) => do
      if (trim text).isEmpty then
        return program
      match parseInstruction line (command text) (arguments text) with
      | some result =>
          let instruction ← result
          return { program with instructions := program.instructions ++ [instruction] }
      | none =>
          if (command text).getLast? = some ':' then
            let label := trimEndMatches ':' (command text)
            if label.isEmpty then
              throw (.error ⟨line, .emptyLabel⟩)
            if label ∈ program.labels then
              throw (.error ⟨line, .duplicatedLabel label⟩)
            return { program with
              labels := program.labels.insert label program.instructions.length }
          else
            throw (.error (.unknownCmd line (command text)))

/-- `parse_program` -/
def parseProgram (input : Str) : Except ParseFailure (Program T) :=
  (lines input).zipIdx.foldlM parseLine ⟨[], ∅⟩

/-! ## Accepted lines -/

/-- What a line that is accepted does to the program. -/
inductive Accepts (program : Program T) (text : Str) (line : ℕ) : Program T → Prop
  | blank (hblank : trim text = []) : Accepts program text line program
  | instruction {instruction : Instruction T} (hblank : trim text ≠ [])
      (hinstruction : parseInstruction line (command text) (arguments text) =
        some (.ok instruction)) :
      Accepts program text line
        { program with instructions := program.instructions ++ [instruction] }
  | label (hblank : trim text ≠ [])
      (hinstruction : parseInstruction (T := T) line (command text) (arguments text) = none)
      (hcolon : (command text).getLast? = some ':')
      (hempty : trimEndMatches ':' (command text) ≠ [])
      (hnew : trimEndMatches ':' (command text) ∉ program.labels) :
      Accepts program text line
        { program with
          labels := program.labels.insert (trimEndMatches ':' (command text))
            program.instructions.length }

variable {program program' : Program T} {text : Str} {line : ℕ}

theorem parseLine_blank (h : trim text = []) : parseLine program (text, line) = .ok program := by
  simp [parseLine, h, pure, Except.pure]

theorem parseLine_some {result : Except ParseFailure (Instruction T)} (hblank : trim text ≠ [])
    (h : parseInstruction line (command text) (arguments text) = some result) :
    parseLine program (text, line) = (do
      let instruction ← result
      return { program with instructions := program.instructions ++ [instruction] }) := by
  simp [parseLine, hblank, h]

theorem parseLine_none (hblank : trim text ≠ [])
    (h : parseInstruction (T := T) line (command text) (arguments text) = none) :
    parseLine program (text, line) =
      if (command text).getLast? = some ':' then
        if trimEndMatches ':' (command text) = [] then
          .error (.error ⟨line, .emptyLabel⟩)
        else if trimEndMatches ':' (command text) ∈ program.labels then
          .error (.error ⟨line, .duplicatedLabel (trimEndMatches ':' (command text))⟩)
        else
          .ok { program with
            labels := program.labels.insert (trimEndMatches ':' (command text))
              program.instructions.length }
      else
        .error (.error (.unknownCmd line (command text))) := by
  simp only [parseLine, List.isEmpty_iff, hblank, h, if_false]
  by_cases hcolon : (command text).getLast? = some ':'
  · rw [if_pos hcolon, if_pos hcolon]
    by_cases hempty : trimEndMatches ':' (command text) = []
    · rw [if_pos hempty, if_pos hempty]
      rfl
    · rw [if_neg hempty, if_neg hempty]
      by_cases hnew : trimEndMatches ':' (command text) ∈ program.labels
      · rw [if_pos hnew, if_pos hnew]
        rfl
      · rw [if_neg hnew, if_neg hnew]
        rfl
  · rw [if_neg hcolon, if_neg hcolon]
    rfl

theorem parseLine_eq_ok :
    parseLine program (text, line) = .ok program' ↔ Accepts program text line program' := by
  -- in the order of the source: blank, an instruction, a label
  by_cases hblank : trim text = []
  · rw [parseLine_blank hblank]
    constructor
    · rintro ⟨⟩
      exact .blank hblank
    · rintro (_ | ⟨h, _⟩ | ⟨h, _⟩)
      · rfl
      · exact absurd hblank h
      · exact absurd hblank h
  · cases hresult : parseInstruction (T := T) line (command text) (arguments text) with
    | some result =>
        rw [parseLine_some hblank hresult, bind_eq_ok]
        constructor
        · rintro ⟨instruction, rfl, ⟨⟩⟩
          exact .instruction hblank hresult
        · rintro (h | ⟨_, hinstruction⟩ | ⟨_, hinstruction, _⟩)
          · exact absurd h hblank
          · rw [hresult, Option.some.injEq] at hinstruction
            exact ⟨_, hinstruction, rfl⟩
          · rw [hresult] at hinstruction
            exact absurd hinstruction (Option.some_ne_none _)
    | none =>
        rw [parseLine_none hblank hresult]
        constructor
        · intro h
          split_ifs at h with hcolon hempty hnew
          cases h
          exact .label hblank hresult hcolon hempty hnew
        · rintro (h | ⟨_, hinstruction⟩ | ⟨_, _, hcolon, hempty, hnew⟩)
          · exact absurd h hblank
          · rw [hresult] at hinstruction
            exact absurd hinstruction.symm (Option.some_ne_none _)
          · rw [if_pos hcolon, if_neg hempty, if_neg hnew]

/-! ## The interpreter -/

/-- `cpu.get_ip()` -/
def getIp : Exec ExecutionError T ℕ :=
  return (← get).cpu.instructionPointer

/-- `cpu.set_ip(ip)` -/
def setIp (ip : ℕ) : Exec ExecutionError T Unit :=
  modify fun machine => { machine with cpu := machine.cpu.setIp ip }

/-- `ip + 1`, for a `u64`. -/
def increment (ip : ℕ) : Option ℕ :=
  if ip + 1 < 2 ^ 64 then some (ip + 1) else none

theorem increment_of_lt {ip : ℕ} (h : ip + 1 < 2 ^ 64) : increment ip = some (ip + 1) := if_pos h

/-- `let ip_target = match instruction { .. }` -/
def ipTarget (program : Program T) : Instruction T → Exec ExecutionError T (Option ℕ)
  | .set dest src => do
      let srcVal ← Exec.read src
      Exec.write dest srcVal
      return none
  | .add dest src => do
      let srcVal ← Exec.read src
      let destVal ← Exec.read dest.asRead
      let result ← Exec.checked (Value.add srcVal destVal)
      Exec.write dest result
      return none
  | .sub dest src => do
      let srcVal ← Exec.read src
      let destVal ← Exec.read dest.asRead
      let result ← Exec.checked (Value.sub destVal srcVal)
      Exec.write dest result
      return none
  | .print expr => do
      let value ← Exec.read expr
      Exec.println value
      return none
  | .jumpIfNotZero src label => do
      let value ← Exec.read src
      if !Value.isZero value then
        match program.resolveLabel label with
        | some index => return some index
        | none => throw (.error (.invalidLabel label))
      else
        return none

/-- `execute_instruction` -/
def executeInstruction (program : Program T) (instruction : Instruction T) :
    Exec ExecutionError T Unit := do
  match ← ipTarget program instruction with
  | some ip => setIp ip
  | none => setIp (← Exec.checked (increment (← getIp)))

/-- The condition of the `while` loop and, where it holds, its body. -/
def iterate (program : Program T) : Exec ExecutionError T Bool := do
  if (← getIp) < program.instructions.length then
    match program.instructions[← getIp]? with
    | some inst =>
        executeInstruction program inst
        return true
    | none => throw .indexOutOfBounds
  else
    return false

/-- `execute_program` with at most `fuel` evaluations of the condition; `none` if the loop
has not ended by then. -/
def executeProgram (program : Program T) :
    ℕ → Machine T → Option (EStateM.Result (Failure ExecutionError) (Machine T) Unit)
  | 0, _ => none
  | fuel + 1, machine =>
      match (iterate program).run machine with
      | .ok true machine => executeProgram program fuel machine
      | .ok false machine => some (.ok () machine)
      | .error failure machine => some (.error failure machine)

/-! ## Runs -/

/-- The loop goes on. -/
def Step (program : Program T) (machine machine' : Machine T) : Prop :=
  (iterate program).run machine = .ok true machine'

/-- A state at the head of the loop in a run of a program. -/
def Reaches (program : Program T) : Machine T → Machine T → Prop :=
  Relation.ReflTransGen (Step program)

/-! ## An iteration -/

variable {machine : Machine T}

omit [Value T] in
@[simp] theorem run_getIp :
    getIp.run machine = .ok machine.cpu.instructionPointer machine := rfl

omit [Value T] in
@[simp] theorem run_setIp {ip : ℕ} :
    (setIp ip).run machine = .ok () { machine with cpu := machine.cpu.setIp ip } := rfl

theorem iterate_run {inst : Instruction T}
    (h : program.instructions[machine.cpu.instructionPointer]? = some inst) :
    (iterate program).run machine =
      match (executeInstruction program inst).run machine with
      | .ok () machine => .ok true machine
      | .error failure machine => .error failure machine := by
  have hlt : machine.cpu.instructionPointer < program.instructions.length :=
    (List.getElem?_eq_some_iff.mp h).1
  simp only [iterate, EStateM.run_bind, run_getIp, if_pos hlt, h, EStateM.run_pure]
  cases (executeInstruction program inst).run machine <;> rfl

theorem iterate_run_end (h : program.instructions.length ≤ machine.cpu.instructionPointer) :
    (iterate program).run machine = .ok false machine := by
  simp only [iterate, EStateM.run_bind, run_getIp, if_neg (Nat.not_lt.mpr h), EStateM.run_pure]

end RustCourse.Assembly.Stage04
