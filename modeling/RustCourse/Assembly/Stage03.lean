import RustCourse.Assembly.Parser
import RustCourse.Lib.Fallible

/-!
# The interpreter without jumps

`archive/2023/projects/assembly-interpret/03`: a program is a list of instructions, and
executing it is a `for` loop over them.  The loop of `parse_program` is a fold over the
numbered lines; what the fold carries is the program so far.

The panics of the two interpreters are those of the arithmetic and of the indices; here the
instruction is taken from the list by the loop, so only a `u8` can overflow.  Stage 04 is
compared with this stage in `Assembly/Extension`.
-/

namespace RustCourse.Assembly.Stage03

open Str Fallible

/-! ## Programs -/

/-- The instructions of stage 03. -/
inductive Instruction (T : Type)
  | set (dest : WritableExpr) (src : ReadableExpr T)
  | print (expr : ReadableExpr T)
  | add (dest : WritableExpr) (src : ReadableExpr T)
  | sub (dest : WritableExpr) (src : ReadableExpr T)
  deriving DecidableEq, Repr

/-- Why an instruction fails. -/
inductive ExecutionError
  | read (e : ReadError)
  | write (e : WriteError)
  | instructionOutOfBounds (ip : UInt64)
  deriving DecidableEq, Repr

instance : FromError ExecutionError where
  read := .read
  write := .write

/-- What the parser returns. -/
structure Program (T : Type) where
  instructions : List (Instruction T)
  deriving DecidableEq, Repr

variable {T : Type} [Value T]

/-! ## The parser -/

/-- The arms of `match command` that make an instruction. -/
def parseInstruction (line : ℕ) (command args : Str) :
    Option (Except ParseError (Instruction T)) :=
  if command = "MOV".toList then some do
    let (dest, src) ← parseDestSrc line args
    return .set dest src
  else if command = "ADD".toList then some do
    let (dest, src) ← parseDestSrc line args
    return .add dest src
  else if command = "SUB".toList then some do
    let (dest, src) ← parseDestSrc line args
    return .sub dest src
  else if command = "PRINT".toList then some do
    let expr ← addLine line (parseReadableExpr args)
    return .print expr
  else none

/-- The body of the loop over the lines. -/
def parseLine (program : Program T) : Str × ℕ → Except ParseError (Program T)
  | (text, line) => do
      if (trim text).isEmpty then
        return program
      match parseInstruction line (command text) (arguments text) with
      | some result =>
          let instruction ← result
          return { program with instructions := program.instructions ++ [instruction] }
      | none => throw (.unknownCmd line (command text))

/-- `parse_program` -/
def parseProgram (input : Str) : Except ParseError (Program T) :=
  (lines input).zipIdx.foldlM parseLine ⟨[]⟩

/-- What an accepted line does to the program: nothing if it is blank, else it adds its
instruction. -/
theorem parseLine_eq_ok {program program' : Program T} {text : Str} {line : ℕ}
    (h : parseLine program (text, line) = .ok program') :
    (trim text = [] ∧ program' = program) ∨
      trim text ≠ [] ∧ ∃ instruction,
        parseInstruction line (command text) (arguments text) = some (.ok instruction) ∧
        program' = ⟨program.instructions ++ [instruction]⟩ := by
  unfold parseLine at h
  dsimp only at h
  split_ifs at h with hblank
  · exact .inl ⟨List.isEmpty_iff.mp hblank, (pure_eq_ok.mp h).symm⟩
  · rw [List.isEmpty_iff] at hblank
    cases hresult : parseInstruction (T := T) line (command text) (arguments text) with
    | none => simp [hresult] at h
    | some result =>
        simp only [hresult, bind_eq_ok, pure_eq_ok] at h
        obtain ⟨instruction, rfl, rfl⟩ := h
        exact .inr ⟨hblank, instruction, rfl, rfl⟩

/-! ## The interpreter -/

/-- `execute_instruction` -/
def executeInstruction : Instruction T → Exec ExecutionError T Unit
  | .set dest src => do
      let srcVal ← Exec.read src
      Exec.write dest srcVal
  | .add dest src => do
      let srcVal ← Exec.read src
      let destVal ← Exec.read dest.asRead
      let result ← Exec.checked (Value.add srcVal destVal)
      Exec.write dest result
  | .sub dest src => do
      let srcVal ← Exec.read src
      let destVal ← Exec.read dest.asRead
      let result ← Exec.checked (Value.sub destVal srcVal)
      Exec.write dest result
  | .print expr => do
      let value ← Exec.read expr
      Exec.println value

/-- `execute_program` -/
def executeProgram (program : Program T) : Exec ExecutionError T Unit :=
  program.instructions.forM executeInstruction

end RustCourse.Assembly.Stage03
