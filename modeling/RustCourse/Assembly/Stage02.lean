import RustCourse.Assembly.Acceptance
import RustCourse.Assembly.Stage03

/-!
# The interpreter with constants and registers only

`archive/2023/projects/assembly-interpret/02`, over `u8` and without a `trait Value`.  It reads
`PRINT` only, though it can execute a `Set` as well, and its errors know less than those of
stage 03: a read out of bounds has an index and no address.

Stage 03 extends it.  Its parser reads the same program from every text that is accepted here,
and an execution does the same up to the errors (`stage03_extends_stage02`); `Mirrors` compares
two computations.

## Strategy

Every part of this stage is embedded into its like of stage 03: operands, instructions,
programs and states.  `Mirrors` relates a computation to its image; the errors correspond up
to what this stage forgets (`Forgets`).  It is kept by `pure`, by a bind and by every effect.
The parsers are compared line by line, and `parseLine_embed` is where it matters that this one
reads `PRINT` only.
-/

namespace RustCourse.Assembly.Stage02

open Str Fallible

/-! ## Instructions -/

/-- Where an operand is stored. -/
inductive AddrExpr
  | register (index : UInt8)
  | memory (address : UInt32)
  deriving DecidableEq, Repr

/-- What an instruction may read. -/
inductive ReadExpr
  | constant (value : UInt8)
  | addr (address : AddrExpr)
  deriving DecidableEq, Repr

/-- What an instruction may write to. -/
inductive WriteExpr
  | addr (address : AddrExpr)
  deriving DecidableEq, Repr

/-- The instructions of stage 02. -/
inductive Instruction
  | set (dest : WriteExpr) (src : ReadExpr)
  | print (expr : ReadExpr)
  deriving DecidableEq, Repr

/-- `ReadExpr::register` -/
def ReadExpr.register (index : UInt8) : ReadExpr := .addr (.register index)

/-! ## The CPU -/

/-- Why a read fails. -/
inductive ReadExprError
  | undefined
  | outOfBounds (index : ℕ)
  deriving DecidableEq, Repr

/-- Why a write fails. -/
inductive WriteExprError
  | outOfBounds (index : ℕ)
  deriving DecidableEq, Repr

/-- The `Cpu` of stage 02. -/
structure Cpu where
  registers : List (MemoryCell UInt8)
  memory : List (MemoryCell UInt8)
  deriving DecidableEq, Repr

namespace Cpu

/-- `(slice, address)` -/
def slice (cpu : Cpu) : AddrExpr → List (MemoryCell UInt8) × ℕ
  | .register index => (cpu.registers, index.toNat)
  | .memory address => (cpu.memory, address.toNat)

/-- `Cpu::read` -/
def read (cpu : Cpu) : ReadExpr → Except ReadExprError UInt8
  | .constant value => .ok value
  | .addr address =>
      match (cpu.slice address).1[(cpu.slice address).2]? with
      | some .undefined => .error .undefined
      | some (.defined value) => .ok value
      | none => .error (.outOfBounds (cpu.slice address).2)

/-- `Cpu::write` -/
def write (cpu : Cpu) (expr : WriteExpr) (value : UInt8) : Except WriteExprError Cpu :=
  match expr with
  | .addr (.register index) =>
      if index.toNat < cpu.registers.length then
        .ok { cpu with registers := cpu.registers.set index.toNat (.defined value) }
      else .error (.outOfBounds index.toNat)
  | .addr (.memory address) =>
      if address.toNat < cpu.memory.length then
        .ok { cpu with memory := cpu.memory.set address.toNat (.defined value) }
      else .error (.outOfBounds address.toNat)

end Cpu

/-! ## The interpreter -/

/-- Why an instruction fails. -/
inductive ExecuteError
  | readExpr (e : ReadExprError)
  | writeExpr (e : WriteExprError)
  deriving DecidableEq, Repr

/-- The CPU and what has been printed. -/
structure State where
  cpu : Cpu
  printed : List UInt8
  deriving DecidableEq, Repr

/-- A computation with the CPU and the output. -/
abbrev Exec := EStateM ExecuteError State

/-- `cpu.read(expr)?` -/
def read (expr : ReadExpr) : Exec UInt8 := do
  match (← get).cpu.read expr with
  | .ok value => return value
  | .error e => throw (.readExpr e)

/-- `cpu.write(dest, value)?` -/
def write (dest : WriteExpr) (value : UInt8) : Exec Unit := do
  match (← get).cpu.write dest value with
  | .ok cpu => modify fun state => { state with cpu }
  | .error e => throw (.writeExpr e)

/-- `println!("{value}")` -/
def println (value : UInt8) : Exec Unit :=
  modify fun state => { state with printed := state.printed ++ [value] }

/-- `execute_instruction` -/
def executeInstruction : Instruction → Exec Unit
  | .print expr => do
      let value ← read expr
      println value
  | .set dest src => do
      let value ← read src
      write dest value

/-- The loop of `main`, which unwraps every result. -/
def executeAll (instructions : List Instruction) : Exec Unit :=
  instructions.forM executeInstruction

/-! ## The parser -/

/-- What is wrong with a line. -/
inductive ParseErrorKind
  | missingArguments
  | unknownInstruction (instruction : Str)
  | invalidConstant (constant : Str)
  | invalidRegister (register : Str)
  deriving DecidableEq, Repr

/-- What is wrong, and in which line. -/
structure ParseError where
  lineNumber : ℕ
  line : Str
  kind : ParseErrorKind
  deriving DecidableEq, Repr

/-- The line of an error is added where it is known. -/
def withLine {α : Type} (result : Except ParseErrorKind α) (lineNumber : ℕ) (line : Str) :
    Except ParseError α :=
  result.mapError fun kind => ⟨lineNumber, line, kind⟩

/-- `parse_read_expr` -/
def parseReadExpr (input : Str) : Except ParseErrorKind ReadExpr :=
  match "R".toList.isPrefixOf? input with
  | some registerNum =>
      match parseU8 registerNum with
      | .ok num => .ok (.register num)
      | .error _ => .error (.invalidRegister registerNum)
  | none =>
      match parseU8 input with
      | .ok num => .ok (.constant num)
      | .error _ => .error (.invalidConstant input)

/-- The body of the loop over the lines. -/
def parseLine (instructions : List Instruction) :
    Str × ℕ → Except ParseError (List Instruction)
  | (text, lineNumber) => do
      let line := trim text
      if line.isEmpty then
        return instructions
      let some (inst, args) := splitOnce ' ' line | throw ⟨lineNumber, line, .missingArguments⟩
      if inst = "PRINT".toList then
        let readExpr ← withLine (parseReadExpr args) lineNumber line
        return instructions ++ [.print readExpr]
      else
        throw ⟨lineNumber, line, .unknownInstruction inst⟩

/-- `parse` -/
def parse (input : Str) : Except ParseError (List Instruction) :=
  (lines input).zipIdx.foldlM parseLine []

/-! ## As programs of stage 03 -/

/-- The same address in stage 03. -/
def AddrExpr.embed : AddrExpr → AddressableExpr
  | register index => .register index
  | memory address => .memory address

/-- The same operand in stage 03. -/
def ReadExpr.embed : ReadExpr → ReadableExpr UInt8
  | constant value => .constant value
  | addr address => .addressable address.embed

/-- The same destination in stage 03. -/
def WriteExpr.embed : WriteExpr → WritableExpr
  | addr address => .addressable address.embed

/-- The same instruction in stage 03. -/
def Instruction.embed : Instruction → Stage03.Instruction UInt8
  | set dest src => .set dest.embed src.embed
  | print expr => .print expr.embed

/-- The instruction pointer of stage 03 is never moved. -/
def State.embed (state : State) : Machine UInt8 :=
  ⟨⟨state.cpu.registers, state.cpu.memory, 0⟩, state.printed⟩

/-- The index of an address of stage 03. -/
def indexOf : AddressableExpr → ℕ
  | .register reg => reg.toNat
  | .memory address => address.toNat

/-- What stage 02 would have said. -/
inductive Forgets : Failure Stage03.ExecutionError → ExecuteError → Prop
  | undefined (address : AddressableExpr) :
      Forgets (.error (.read (.undefined address))) (.readExpr .undefined)
  | readOutOfBounds (address : AddressableExpr) :
      Forgets (.error (.read (.outOfBounds address))) (.readExpr (.outOfBounds (indexOf address)))
  | writeOutOfBounds (address : AddressableExpr) :
      Forgets (.error (.write (.outOfBounds address)))
        (.writeExpr (.outOfBounds (indexOf address)))

/-- Two computations that have ended alike. -/
inductive SameResult {α : Type} :
    EStateM.Result (Failure Stage03.ExecutionError) (Machine UInt8) α →
      EStateM.Result ExecuteError State α → Prop
  | ok (a : α) (state : State) : SameResult (.ok a state.embed) (.ok a state)
  | error {failure : Failure Stage03.ExecutionError} {e : ExecuteError} (state : State) :
      Forgets failure e → SameResult (.error failure state.embed) (.error e state)

/-! ## Computations compared -/

/-- What the second computation does, the first one does on the same CPU. -/
def Mirrors {α : Type} (x : Assembly.Exec Stage03.ExecutionError UInt8 α) (y : Exec α) : Prop :=
  ∀ state : State, SameResult (x.run state.embed) (y.run state)

namespace Mirrors

theorem pure {α : Type} (a : α) : Mirrors (Pure.pure a) (Pure.pure a) :=
  fun state => .ok a state

theorem bind {α β : Type} {x : Assembly.Exec Stage03.ExecutionError UInt8 α} {y : Exec α}
    {f : α → Assembly.Exec Stage03.ExecutionError UInt8 β} {g : α → Exec β} (hxy : Mirrors x y)
    (hfg : ∀ a, Mirrors (f a) (g a)) : Mirrors (x >>= f) (y >>= g) := by
  intro state
  rw [EStateM.run_bind, EStateM.run_bind]
  have hfirst := hxy state
  generalize x.run state.embed = first at hfirst
  generalize y.run state = first' at hfirst
  cases hfirst with
  | ok a state => exact hfg a state
  | error state hforgets => exact .error state hforgets

theorem read (expr : ReadExpr) : Mirrors (Exec.read expr.embed) (Stage02.read expr) := by
  intro state
  rw [Exec.run_read]
  cases expr with
  | constant value => exact .ok value state
  | addr address =>
      -- the two find the same cell, and the same index for an error
      have hcell : state.embed.cpu.getCell address.embed =
          (state.cpu.slice address).1[(state.cpu.slice address).2]? := by
        cases address <;> rfl
      have hindex : indexOf address.embed = (state.cpu.slice address).2 := by
        cases address <;> rfl
      have hrun : (Stage02.read (.addr address)).run state =
          match state.cpu.read (.addr address) with
          | .ok value => .ok value state
          | .error e => .error (.readExpr e) state := by
        cases h : state.cpu.read (.addr address) with
        | ok value => simp [Stage02.read, h]
        | error e =>
            simp only [Stage02.read, EStateM.run_bind, EStateM.run_get, h]
            rfl
      rw [hrun, ReadExpr.embed, Assembly.Cpu.read, hcell, Cpu.read]
      cases (state.cpu.slice address).1[(state.cpu.slice address).2]? with
      | none =>
          simp only [← hindex]
          exact .error state (.readOutOfBounds _)
      | some cell =>
          cases cell with
          | undefined => exact .error state (.undefined _)
          | defined value => exact .ok value state

theorem write (dest : WriteExpr) (value : UInt8) :
    Mirrors (Exec.write dest.embed value) (Stage02.write dest value) := by
  intro state
  rw [Exec.run_write]
  -- an error leaves the state as it was
  have hrun : (Stage02.write dest value).run state =
      match state.cpu.write dest value with
      | .ok cpu => .ok () { state with cpu }
      | .error e => .error (.writeExpr e) state := by
    cases h : state.cpu.write dest value with
    | ok cpu => simp [Stage02.write, h]
    | error e =>
        simp only [Stage02.write, EStateM.run_bind, EStateM.run_get, h]
        rfl
  rw [hrun]
  obtain ⟨address⟩ := dest
  cases address with
  | register index =>
      simp only [WriteExpr.embed, AddrExpr.embed, Assembly.Cpu.write, Assembly.Cpu.getCell,
        Cpu.write]
      by_cases hlt : index.toNat < state.cpu.registers.length
      · have hcell : state.embed.cpu.registers[index.toNat]? = some _ :=
          List.getElem?_eq_getElem hlt
        rw [hcell, if_pos hlt]
        exact .ok () { state with cpu := { state.cpu with
          registers := state.cpu.registers.set index.toNat (.defined value) } }
      · have hcell : state.embed.cpu.registers[index.toNat]? = none :=
          List.getElem?_eq_none (Nat.not_lt.mp hlt)
        rw [hcell, if_neg hlt]
        exact .error state (.writeOutOfBounds (.register index))
  | memory index =>
      simp only [WriteExpr.embed, AddrExpr.embed, Assembly.Cpu.write, Assembly.Cpu.getCell,
        Cpu.write]
      by_cases hlt : index.toNat < state.cpu.memory.length
      · have hcell : state.embed.cpu.memory[index.toNat]? = some _ :=
          List.getElem?_eq_getElem hlt
        rw [hcell, if_pos hlt]
        exact .ok () { state with cpu := { state.cpu with
          memory := state.cpu.memory.set index.toNat (.defined value) } }
      · have hcell : state.embed.cpu.memory[index.toNat]? = none :=
          List.getElem?_eq_none (Nat.not_lt.mp hlt)
        rw [hcell, if_neg hlt]
        exact .error state (.writeOutOfBounds (.memory index))

theorem println (value : UInt8) : Mirrors (Exec.println value) (Stage02.println value) :=
  fun state => .ok () { state with printed := state.printed ++ [value] }

end Mirrors

/-! ## The interpreters compared -/

theorem mirrors_executeInstruction (instruction : Instruction) :
    Mirrors (Stage03.executeInstruction instruction.embed) (executeInstruction instruction) := by
  cases instruction with
  | set dest src => exact .bind (.read src) fun value => .write dest value
  | print expr => exact .bind (.read expr) fun value => .println value

theorem mirrors_executeAll (instructions : List Instruction) :
    Mirrors (Stage03.executeProgram ⟨instructions.map Instruction.embed⟩)
      (executeAll instructions) := by
  rw [Stage03.executeProgram, executeAll]
  induction instructions with
  | nil => exact .pure ()
  | cons instruction instructions ih =>
      exact .bind (mirrors_executeInstruction instruction) fun _ => ih

/-! ## The parsers -/

/-- What is read as an operand here is one there, too. -/
theorem parseReadableExpr_embed {input : Str} {expr : ReadExpr}
    (h : parseReadExpr input = .ok expr) : parseReadableExpr input = .ok expr.embed := by
  refine Stage04.parseReadableExpr_iff.mpr ?_
  unfold parseReadExpr at h
  split at h
  · next digits hdigits =>
      obtain rfl := Stage04.isPrefixOf?_R.mp hdigits
      split at h
      · next num hnum =>
          cases h
          have htrim : trim ('R' :: digits) = 'R' :: digits := by
            refine trim_of_forall fun c hc => ?_
            rcases List.mem_cons.mp hc with rfl | hc
            · decide
            · exact not_whitespace_of_number hnum c hc
          exact .register htrim hnum
      · cases h
  · split at h
    · next num hnum =>
        cases h
        refine .constant ?_
        rwa [trim_of_forall (not_whitespace_of_number hnum)]
    · cases h

theorem parseLine_embed {instructions next : List Instruction} {text : Str} {n : ℕ}
    (h : parseLine instructions (text, n) = .ok next) :
    Stage03.parseLine ⟨instructions.map Instruction.embed⟩ (text, n) =
      .ok ⟨next.map Instruction.embed⟩ := by
  unfold parseLine at h
  dsimp only at h
  by_cases hblank : trim text = []
  · simp only [hblank, List.isEmpty_nil, if_true, pure_eq_ok] at h
    simp [Stage03.parseLine, hblank, h, pure, Except.pure]
  · rw [if_neg (by simpa using hblank)] at h
    cases hsplit : splitOnce ' ' (trim text) with
    | none =>
        rw [hsplit] at h
        cases h
    | some parts =>
        obtain ⟨inst, args⟩ := parts
        rw [hsplit] at h
        dsimp only at h
        -- there is no other command than `PRINT`
        split_ifs at h with hinst
        · obtain ⟨expr, hexpr, hnext⟩ := bind_eq_ok.mp h
          have hread := parseReadableExpr_embed (mapError_eq_ok.mp hexpr)
          cases hnext
          have hcommand : command text = "PRINT".toList := by simp [command, hsplit, hinst]
          have hargs : arguments text = args := by simp [arguments, hsplit]
          have hinstruction : Stage03.parseInstruction n (command text) (arguments text) =
              some (.ok (.print expr.embed)) := by
            rw [hcommand, hargs, Stage03.parseInstruction, if_neg (by decide), if_neg (by decide),
              if_neg (by decide), if_pos rfl, hread]
            rfl
          simp only [Stage03.parseLine, List.isEmpty_iff, hblank, hinstruction, if_false]
          simp [bind, Except.bind, pure, Except.pure, Instruction.embed]

/-- A text that is accepted here is read as the same program there. -/
theorem parseProgram_embed {text : Str} {instructions : List Instruction}
    (hparse : parse text = .ok instructions) :
    Stage03.parseProgram text = .ok ⟨instructions.map Instruction.embed⟩ := by
  -- line by line, the program read so far is the same one
  suffices hall : ∀ (lines : List (Str × ℕ)) (done : List Instruction),
      lines.foldlM parseLine done = .ok instructions →
      lines.foldlM Stage03.parseLine ⟨done.map Instruction.embed⟩ =
        .ok ⟨instructions.map Instruction.embed⟩ from hall _ [] hparse
  intro lines
  induction lines with
  | nil =>
      intro done hdone
      rw [List.foldlM_nil, pure_eq_ok] at hdone ⊢
      rw [hdone]
  | cons line lines ih =>
      intro done hdone
      rw [List.foldlM_cons, bind_eq_ok] at hdone ⊢
      obtain ⟨done', hline, hlines⟩ := hdone
      exact ⟨_, parseLine_embed hline, ih done' hlines⟩

/-- **Stage 03 extends stage 02**: it reads the same program from every text that is accepted,
and executing any list of instructions, whether it can be read from a text or not, does the
same on every CPU, up to what the errors know. -/
theorem stage03_extends_stage02 :
    (∀ text instructions, parse text = .ok instructions →
      Stage03.parseProgram text = .ok ⟨instructions.map Instruction.embed⟩) ∧
    ∀ (instructions : List Instruction) (state : State), SameResult
      ((Stage03.executeProgram ⟨instructions.map Instruction.embed⟩).run state.embed)
      ((executeAll instructions).run state) :=
  ⟨fun _ _ hparse => parseProgram_embed hparse, fun instructions => mirrors_executeAll instructions⟩

/-- The program of `main` is parsed, and one with a `Set` in it fails at a cell of the memory
that the CPU does not have, after it has printed. -/
theorem stage03_extends_stage02_set :
    Stage03.parseProgram "\nPRINT 8\nPRINT R0\n".toList =
        .ok (⟨[.print (.constant 8), .print (.register 0)]⟩ : Stage03.Program UInt8) ∧
      SameResult
        (.error (.error (.write (.outOfBounds (.memory 2))))
          (State.embed ⟨⟨[.defined 7], []⟩, [7]⟩))
        ((executeAll [.set (.addr (.register 0)) (.constant 7), .print (.register 0),
          .set (.addr (.memory 2)) (.register 0)]).run ⟨⟨[.undefined], []⟩, []⟩) := by
  obtain ⟨hparse, hsame⟩ := stage03_extends_stage02
  exact ⟨hparse "\nPRINT 8\nPRINT R0\n".toList [.print (.constant 8), .print (.register 0)] rfl,
    hsame [.set (.addr (.register 0)) (.constant 7), .print (.register 0),
      .set (.addr (.memory 2)) (.register 0)] ⟨⟨[.undefined], []⟩, []⟩⟩

end RustCourse.Assembly.Stage02
