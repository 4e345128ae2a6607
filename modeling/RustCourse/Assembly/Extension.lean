import RustCourse.Assembly.Stage03
import RustCourse.Assembly.Stage04

/-!
# Stage 04 extends stage 03

A program of stage 03 is one of stage 04 that has no labels and does not jump.  The parser
of stage 04 reads the same program from the same text, and there the fetch loop does what
the `for` loop does: `Simulates` compares two computations at every position of the
instruction pointer, which stage 03 has but never moves, and `executeProgram_extend` counts
the instructions that are done.

## Strategy

* **Parsing.**  A line that stage 03 accepts is blank or begins with one of its mnemonics, and
  stage 04 looks for these before it looks for a label.  So the two parsers read the same from
  each line, and the loops over the lines go together.
* **Executing.**  `Simulates` is kept by `pure`, by a bind and by every effect, so it holds of
  an instruction by its cases.  The loop of stage 04 makes one iteration for each step of the
  `for` loop, with the pointer at the number of instructions that are done.
-/

namespace RustCourse.Assembly

open Str Fallible

variable {T : Type}

/-! ## Programs of stage 03 as programs of stage 04 -/

/-- An instruction of stage 03 among those of stage 04. -/
def extend : Stage03.Instruction T → Stage04.Instruction T
  | .set dest src => .set dest src
  | .print expr => .print expr
  | .add dest src => .add dest src
  | .sub dest src => .sub dest src

/-- A program of stage 03 as one of stage 04, without labels. -/
def extendProgram (program : Stage03.Program T) : Stage04.Program T where
  instructions := program.instructions.map extend
  labels := ∅

/-! ## The parsers -/

section Parsers

variable [Stage04.Value T]

theorem monadLift_eq_ok {α : Type} {x : Except ParseError α} {a : α} :
    (liftM x : Except Stage04.ParseFailure α) = .ok a ↔ x = .ok a :=
  mapError_eq_ok

theorem parseInstruction_extend {line : ℕ} {command args : Str}
    {instruction : Stage03.Instruction T}
    (h : Stage03.parseInstruction line command args = some (.ok instruction)) :
    Stage04.parseInstruction line command args = some (.ok (extend instruction)) := by
  unfold Stage03.parseInstruction at h
  unfold Stage04.parseInstruction
  split_ifs at h ⊢ with hmov hadd hsub hprint
  all_goals
    rw [Option.some.injEq, bind_eq_ok] at h ⊢
    obtain ⟨operands, hoperands, h⟩ := h
    rw [pure_eq_ok] at h
    exact ⟨operands, monadLift_eq_ok.mpr hoperands, by rw [pure_eq_ok, ← h]; rfl⟩

theorem parseLine_extend {program program' : Stage03.Program T} {line : Str × ℕ}
    (h : Stage03.parseLine program line = .ok program') :
    Stage04.parseLine (extendProgram program) line = .ok (extendProgram program') := by
  rw [Stage04.parseLine_eq_ok]
  obtain ⟨hblank, rfl⟩ | ⟨hblank, instruction, hinstruction, rfl⟩ := Stage03.parseLine_eq_ok h
  · exact .blank hblank
  · rw [show extendProgram ⟨program.instructions ++ [instruction]⟩ =
      { extendProgram program with
        instructions := (extendProgram program).instructions ++ [extend instruction] } by
      simp [extendProgram]]
    exact .instruction hblank (parseInstruction_extend hinstruction)

theorem parseProgram_extend {text : Str} {program : Stage03.Program T}
    (h : Stage03.parseProgram text = .ok program) :
    Stage04.parseProgram text = .ok (extendProgram program) := by
  unfold Stage03.parseProgram at h
  unfold Stage04.parseProgram
  -- line by line, the program read so far is extended as well
  suffices hall : ∀ (lines : List (Str × ℕ)) (done : Stage03.Program T),
      lines.foldlM Stage03.parseLine done = .ok program →
      lines.foldlM Stage04.parseLine (extendProgram done) = .ok (extendProgram program) from
    hall _ _ h
  intro lines
  induction lines with
  | nil =>
      intro done hdone
      rw [List.foldlM_nil, pure_eq_ok] at hdone ⊢
      rw [hdone]
  | cons line lines ih =>
      intro done hdone
      rw [List.foldlM_cons, bind_eq_ok] at hdone ⊢
      obtain ⟨done', hline, hlines⟩ := hdone
      exact ⟨_, parseLine_extend hline, ih done' hlines⟩

end Parsers

/-! ## The interpreters -/

/-- An error of stage 03 among those of stage 04. -/
def extendError : Stage03.ExecutionError → Stage04.ExecutionError
  | .read e => .read e
  | .write e => .write e
  | .instructionOutOfBounds ip => .instructionOutOfBounds ip

/-- A failure of stage 03 as one of stage 04. -/
def extendFailure : Failure Stage03.ExecutionError → Failure Stage04.ExecutionError
  | .error e => .error (extendError e)
  | .overflow => .overflow
  | .indexOutOfBounds => .indexOutOfBounds

/-- A machine of stage 03 with an instruction pointer. -/
def pointTo (ip : ℕ) (machine : Machine T) : Machine T :=
  { machine with cpu := machine.cpu.setIp ip }

/-! ## Computations compared at every pointer -/

/-- What a computation of stage 03 does, one of stage 04 does as well, wherever the
instruction pointer is, and leaves the pointer there. -/
def Simulates {α : Type} (x : Exec Stage03.ExecutionError T α)
    (y : Exec Stage04.ExecutionError T α) : Prop :=
  ∀ machine ip, y.run (pointTo ip machine) =
    match x.run machine with
    | .ok a machine => .ok a (pointTo ip machine)
    | .error failure machine => .error (extendFailure failure) (pointTo ip machine)

namespace Simulates

theorem pure {α : Type} (a : α) :
    Simulates (T := T) (Pure.pure a) (Pure.pure a) := fun _ _ => rfl

theorem bind {α β : Type} {x : Exec Stage03.ExecutionError T α}
    {y : Exec Stage04.ExecutionError T α} {f : α → Exec Stage03.ExecutionError T β}
    {g : α → Exec Stage04.ExecutionError T β} (hxy : Simulates x y)
    (hfg : ∀ a, Simulates (f a) (g a)) : Simulates (x >>= f) (y >>= g) := by
  intro machine ip
  rw [EStateM.run_bind, EStateM.run_bind, hxy machine ip]
  cases x.run machine with
  | ok a machine => exact hfg a machine ip
  | error failure machine => rfl

theorem read (expr : ReadableExpr T) : Simulates (Exec.read expr) (Exec.read expr) := by
  intro machine ip
  rw [Exec.run_read, Exec.run_read]
  have : (pointTo ip machine).cpu.read expr = machine.cpu.read expr := Cpu.read_setIp _ _ _
  rw [this]
  cases machine.cpu.read expr <;> rfl

theorem write (dest : WritableExpr) (value : T) :
    Simulates (Exec.write dest value) (Exec.write dest value) := by
  intro machine ip
  rw [Exec.run_write, Exec.run_write]
  have : (pointTo ip machine).cpu.write dest value =
      (machine.cpu.write dest value).map (Cpu.setIp · ip) := Cpu.write_setIp _ _ _ _
  rw [this]
  cases machine.cpu.write dest value <;> rfl

theorem println (value : T) : Simulates (Exec.println value) (Exec.println value) :=
  fun _ _ => rfl

theorem checked {α : Type} (result : Option α) :
    Simulates (T := T) (Exec.checked result) (Exec.checked result) := by
  intro machine ip
  cases result <;> rfl

end Simulates

variable [Stage04.Value T]

/-! ## Instructions -/

theorem simulates_ipTarget (program : Stage04.Program T) (instruction : Stage03.Instruction T) :
    Simulates (do Stage03.executeInstruction instruction; return none)
      (Stage04.ipTarget program (extend instruction)) := by
  cases instruction with
  | set dest src =>
      simp only [Stage03.executeInstruction, bind_assoc]
      exact .bind (.read src) fun value => .bind (.write dest value) fun _ => .pure none
  | add dest src =>
      simp only [Stage03.executeInstruction, bind_assoc]
      exact .bind (.read src) fun _ => .bind (.read dest.asRead) fun _ =>
        .bind (.checked _) fun result => .bind (.write dest result) fun _ => .pure none
  | sub dest src =>
      simp only [Stage03.executeInstruction, bind_assoc]
      exact .bind (.read src) fun _ => .bind (.read dest.asRead) fun _ =>
        .bind (.checked _) fun result => .bind (.write dest result) fun _ => .pure none
  | print expr =>
      simp only [Stage03.executeInstruction, bind_assoc]
      exact .bind (.read expr) fun value => .bind (.println value) fun _ => .pure none

theorem executeInstruction_extend (program : Stage04.Program T)
    (instruction : Stage03.Instruction T) (machine : Machine T) {ip : ℕ} (hip : ip + 1 < 2 ^ 64) :
    (Stage04.executeInstruction program (extend instruction)).run (pointTo ip machine) =
      match (Stage03.executeInstruction instruction).run machine with
      | .ok () machine => .ok () (pointTo (ip + 1) machine)
      | .error failure machine => .error (extendFailure failure) (pointTo ip machine) := by
  rw [Stage04.executeInstruction, EStateM.run_bind,
    simulates_ipTarget program instruction machine ip, EStateM.run_bind]
  cases (Stage03.executeInstruction instruction).run machine with
  | ok _ machine => simp [pointTo, Stage04.increment_of_lt hip]
  | error failure machine => rfl

/-! ## Executions -/

/-- Two runs that have ended alike. -/
inductive SameEnd : EStateM.Result (Failure Stage03.ExecutionError) (Machine T) Unit →
    EStateM.Result (Failure Stage04.ExecutionError) (Machine T) Unit → Prop
  | ok (machine : Machine T) (ip : ℕ) :
      SameEnd (.ok () machine) (.ok () (pointTo ip machine))
  | error (failure : Failure Stage03.ExecutionError) (machine : Machine T) (ip : ℕ) :
      SameEnd (.error failure machine) (.error (extendFailure failure) (pointTo ip machine))

/-- The fetch loop at the instruction behind `done` and the `for` loop with `rest` left. -/
theorem executeProgram_extend {program : Stage03.Program T}
    (hlength : program.instructions.length < 2 ^ 64) {rest : List (Stage03.Instruction T)} :
    ∀ {done : List (Stage03.Instruction T)}, program.instructions = done ++ rest →
    ∀ {fuel : ℕ}, rest.length < fuel → ∀ machine, ∃ outcome,
      Stage04.executeProgram (extendProgram program) fuel (pointTo done.length machine) =
        some outcome ∧
      SameEnd ((rest.forM Stage03.executeInstruction).run machine) outcome := by
  induction rest with
  | nil =>
      intro done hdone fuel hfuel machine
      obtain ⟨fuel, rfl⟩ := Nat.exists_eq_succ_of_ne_zero (Nat.ne_of_gt hfuel)
      have hend : (extendProgram program).instructions.length ≤
          (pointTo done.length machine).cpu.instructionPointer := by
        simp [extendProgram, pointTo, hdone]
      refine ⟨.ok () (pointTo done.length machine), ?_, .ok machine done.length⟩
      simp only [Stage04.executeProgram, Stage04.iterate_run_end hend]
  | cons instruction rest ih =>
      intro done hdone fuel hfuel machine
      obtain ⟨fuel, rfl⟩ := Nat.exists_eq_succ_of_ne_zero (Nat.ne_of_gt (Nat.zero_lt_of_lt hfuel))
      have hfetch : (extendProgram program).instructions[
          (pointTo done.length machine).cpu.instructionPointer]? = some (extend instruction) := by
        simp [extendProgram, pointTo, hdone]
      -- the increment of the pointer does not overflow
      have hip : done.length + 1 < 2 ^ 64 := by
        have : program.instructions.length = done.length + (rest.length + 1) := by
          rw [hdone, List.length_append, List.length_cons]
        omega
      have hrun := executeInstruction_extend (extendProgram program) instruction machine hip
      simp only [Stage04.executeProgram, Stage04.iterate_run hfetch, hrun]
      rw [List.forM_eq_forM, List.forM_cons, EStateM.run_bind]
      cases (Stage03.executeInstruction instruction).run machine with
      | error failure machine => exact ⟨_, rfl, .error failure machine done.length⟩
      | ok _ machine =>
          have hrest : program.instructions = (done ++ [instruction]) ++ rest := by
            rw [hdone, List.append_cons]
          simpa using ih hrest (Nat.lt_of_succ_lt_succ hfuel) machine

/-- For every text that stage 03 accepts, stage 04 reads the same program without labels,
and it ends as stage 03 does on every CPU.  The number of instructions is the length of a
`Vec`, so it fits in 64 bits. -/
theorem stage04_extends_stage03 {text : Str} {program : Stage03.Program T}
    (hparse : Stage03.parseProgram text = .ok program)
    (hlength : program.instructions.length < 2 ^ 64) :
    Stage04.parseProgram text = .ok (extendProgram program) ∧
      ∀ (registers memory : List (MemoryCell T)), ∀ fuel > program.instructions.length,
        ∃ outcome,
          Stage04.executeProgram (extendProgram program) fuel ⟨⟨registers, memory, 0⟩, []⟩ =
            some outcome ∧
          SameEnd ((Stage03.executeProgram program).run ⟨⟨registers, memory, 0⟩, []⟩) outcome := by
  refine ⟨parseProgram_extend hparse, fun registers memory fuel hfuel => ?_⟩
  exact executeProgram_extend hlength (List.nil_append _).symm hfuel ⟨⟨registers, memory, 0⟩, []⟩

/-- A text whose last instruction fails, on a CPU with two registers. -/
theorem stage04_extends_stage03_failing :
    ∃ outcome,
      Stage04.executeProgram (T := UInt8)
        (extendProgram ⟨[.set (.register 0) (.constant 5), .add (.register 0) (.register 0),
          .print (.register 0), .sub (.register 2) (.constant 7)]⟩)
        5 ⟨⟨[.undefined, .undefined], [], 0⟩, []⟩ = some outcome ∧
      SameEnd
        (.error (.error (.read (.outOfBounds (.register 2))))
          ⟨⟨[.defined 10, .undefined], [], 0⟩, [10]⟩)
        outcome :=
  (stage04_extends_stage03
    (by decide : Stage03.parseProgram "MOV R0, 5\n ADD R0,R0\n\nPRINT R0\nSUB R2,7".toList = .ok _)
    (by decide)).2 [.undefined, .undefined] [] 5 (by decide)

end RustCourse.Assembly
