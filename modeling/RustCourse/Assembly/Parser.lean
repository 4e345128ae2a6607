import RustCourse.Assembly.Machine

/-!
# Operands

The functions of `parser.rs` that the two stages have in common.  They say where an error
is with the number of its line.

## Strategy

The parsers of the two stages differ in their instructions and in what they do with labels,
so what they share ends at an operand.  `parseDestSrc` is the shape of `MOV`, `ADD` and `SUB`:
two operands around the first comma, of which the first has to be a destination.  A line is
cut at its first space by `command` and `arguments`; the `match` on the command is the stage's
own.

`ParseErrorKind` has the complaints of both stages, since `add_line` and the functions that
quote a part of the line treat them alike.
-/

namespace RustCourse.Assembly

open Str

/-! ## Errors -/

/-- The last two are of stage 04. -/
inductive ParseErrorKind
  | unknownCommand (cmd : Str)
  | unexpectedArgs (args : Str)
  | invalidReadableExpr (expr : Str)
  | invalidWritableExpr (expr : Str)
  | emptyLabel
  | duplicatedLabel (label : Str)
  deriving DecidableEq, Repr

/-- What is wrong, and in which line; lines are counted from 0. -/
structure ParseError where
  line : ℕ
  error : ParseErrorKind
  deriving DecidableEq, Repr

namespace ParseError

/-- `ParseError::unknown_cmd` -/
def unknownCmd (line : ℕ) (cmd : Str) : ParseError := ⟨line, .unknownCommand cmd⟩

/-- `ParseError::unexpected_args` -/
def unexpectedArgs (line : ℕ) (args : Str) : ParseError := ⟨line, .unexpectedArgs args⟩

end ParseError

variable {T : Type}

/-! ## Expressions -/

/-- `add_line` -/
def addLine {α : Type} (line : ℕ) (result : Except ParseErrorKind α) : Except ParseError α :=
  result.mapError fun error => ⟨line, error⟩

/-- `parse_readable_expr` -/
def parseReadableExpr [Value T] (input : Str) : Except ParseErrorKind (ReadableExpr T) :=
  let input := trim input
  match Value.parse input with
  | .ok value => .ok (.constant value)
  | .error _ =>
      match "R".toList.isPrefixOf? input with
      | none => .error (.invalidReadableExpr input)
      | some rest =>
          match parseU8 rest with
          | .ok value => .ok (.register value)
          | .error _ => .error (.invalidReadableExpr input)

/-- `parse_writable_expr` -/
def parseWritableExpr (input : Str) : Except ParseErrorKind WritableExpr :=
  let input := trim input
  match "R".toList.isPrefixOf? input with
  | none => .error (.invalidReadableExpr input)
  | some rest =>
      match parseU8 rest with
      | .ok value => .ok (.register value)
      | .error _ => .error (.invalidWritableExpr input)

/-- `parse_dest_src` -/
def parseDestSrc [Value T] (line : ℕ) (args : Str) :
    Except ParseError (WritableExpr × ReadableExpr T) := do
  let args := trim args
  let some (dst, src) := splitOnce ',' args | throw (.unexpectedArgs line args)
  let src ← addLine line (parseReadableExpr src)
  let dest ← addLine line (parseWritableExpr dst)
  return (dest, src)

/-! ## A line

`(command, args)` in `parse_program`; a line of one word has no arguments. -/

/-- The part of the line before its first space. -/
def command (line : Str) : Str :=
  match splitOnce ' ' (trim line) with
  | some (command, _) => command
  | none => trim line

/-- The part of the line behind its first space. -/
def arguments (line : Str) : Str :=
  match splitOnce ' ' (trim line) with
  | some (_, args) => args
  | none => []

end RustCourse.Assembly
