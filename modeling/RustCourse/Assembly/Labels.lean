import RustCourse.Assembly.Stage04
import Mathlib.Data.List.Forall2

/-!
# Labels and the instruction pointer

Which lines define a label and which hold an instruction is said here about the lines
themselves.  The parser's bookkeeping follows from it line by line (`Positions`), and the
instruction pointer of a run stays within the program because a jump goes to a label, which
stands at most behind the last instruction.

## Strategy

* **Positions.**  The loop keeps that a label maps to the number of instructions in the lines
  before its own.  `not_holdsInstruction_blank` and its like say what an empty line counts for.
* **The pointer.**  An instruction moves it to the next one or to a label of the program
  (`Targets`), so it is at most the number of instructions, in every state a run reaches.
* **Failures.**  An iteration that fails reads an operand that is not there, overflows, or
  jumps to a label that no line defines (`Explained`).
-/

namespace RustCourse.Assembly.Stage04

open Str Fallible

variable {T : Type} [Value T]

/-! ## Lines -/

/-- The commands of stage 04. -/
def mnemonics : List Str :=
  ["MOV".toList, "ADD".toList, "SUB".toList, "PRINT".toList, "JNZ".toList]

/-- The first word of the line is one of an instruction. -/
def HoldsInstruction (line : Str) : Bool := command line ∈ mnemonics

/-- The first word of the line is the label and at least one colon. -/
def DefinesLabel (line label : Str) : Prop :=
  label ≠ [] ∧ label.getLast? ≠ some ':' ∧
    ∃ n, command line = label ++ List.replicate (n + 1) ':'

/-- The instruction is the one that the line holds. -/
def Reads (line : Str) (instruction : Instruction T) : Prop :=
  ∃ n, parseInstruction n (command line) (arguments line) = some (.ok instruction)

/-- The label is defined on a line with `n` instructions on the lines before it. -/
def DefinedAt (lines : List Str) (label : Str) (n : ℕ) : Prop :=
  ∃ before line after, lines = before ++ line :: after ∧ DefinesLabel line label ∧
    n = before.countP HoldsInstruction

theorem parseInstruction_eq_none_iff {line : ℕ} {command args : Str} :
    parseInstruction (T := T) line command args = none ↔ command ∉ mnemonics := by
  unfold parseInstruction
  split_ifs <;> simp_all [mnemonics]

theorem DefinesLabel.getLast? {line label : Str} (h : DefinesLabel line label) :
    (command line).getLast? = some ':' := by
  obtain ⟨_, _, n, hcommand⟩ := h
  rw [hcommand, List.replicate_succ', ← List.append_assoc, List.getLast?_concat]

theorem DefinesLabel.not_holdsInstruction {line label : Str} (h : DefinesLabel line label) :
    HoldsInstruction line = false := by
  have hlast := h.getLast?
  refine decide_eq_false fun hcommand => ?_
  simp only [mnemonics, List.mem_cons, List.not_mem_nil, or_false] at hcommand
  rcases hcommand with hcommand | hcommand | hcommand | hcommand | hcommand <;>
    · rw [hcommand] at hlast
      exact absurd hlast (by decide)

/-- The label of a line is what `trim_end_matches` leaves of its first word. -/
theorem definesLabel_iff {line label : Str} :
    DefinesLabel line label ↔ (command line).getLast? = some ':' ∧
      label = trimEndMatches ':' (command line) ∧ label ≠ [] := by
  constructor
  · intro h
    refine ⟨h.getLast?, ?_, h.1⟩
    obtain ⟨_, hlast, n, hcommand⟩ := h
    rw [hcommand, trimEndMatches_replicate hlast]
  · rintro ⟨hcolon, rfl, hempty⟩
    refine ⟨hempty, getLast?_trimEndMatches _ _, ?_⟩
    obtain ⟨n, hn⟩ := trimEndMatches_append ':' (command line)
    cases n with
    | zero =>
        rw [List.replicate_zero, List.append_nil] at hn
        exact absurd (hn ▸ hcolon) (getLast?_trimEndMatches _ _)
    | succ n => exact ⟨n, hn⟩

theorem command_blank {line : Str} (h : trim line = []) : command line = [] := by
  simp [command, splitOnce, h]

private theorem not_holdsInstruction_blank {line : Str} (h : trim line = []) :
    HoldsInstruction line = false := by
  simp [HoldsInstruction, command_blank h, mnemonics]

theorem not_definesLabel_blank {line label : Str} (h : trim line = []) :
    ¬ DefinesLabel line label := by
  intro hlabel
  have := hlabel.getLast?
  rw [command_blank h] at this
  exact nomatch this

theorem definedAt_concat {lines : List Str} {line label : Str} {n : ℕ} :
    DefinedAt (lines ++ [line]) label n ↔
      DefinedAt lines label n ∨
        DefinesLabel line label ∧ n = lines.countP HoldsInstruction := by
  constructor
  · rintro ⟨before, line', after, hlines, hlabel, hn⟩
    -- is the line that defines the label the last one?
    rcases List.eq_nil_or_concat after with rfl | ⟨after, last, rfl⟩
    · obtain ⟨rfl, hline⟩ := List.append_inj' hlines rfl
      rw [List.singleton_inj] at hline
      exact .inr ⟨hline ▸ hlabel, hn⟩
    · rw [List.concat_eq_append, ← List.cons_append, ← List.append_assoc] at hlines
      obtain ⟨rfl, -⟩ := List.append_inj' hlines rfl
      exact .inl ⟨before, line', after, rfl, hlabel, hn⟩
  · rintro (⟨before, line', after, rfl, hlabel, hn⟩ | ⟨hlabel, hn⟩)
    · exact ⟨before, line', after ++ [line], by simp, hlabel, hn⟩
    · exact ⟨lines, line, [], rfl, hlabel, hn⟩

/-! ## The parser -/

/-- What the program knows of the lines it was read from. -/
structure Positions (lines : List Str) (program : Program T) : Prop where
  instructions : List.Forall₂ Reads (lines.filter HoldsInstruction) program.instructions
  labels : ∀ label n, program.labels.lookup label = some n ↔ DefinedAt lines label n

namespace Positions

variable {lines : List Str} {program program' : Program T}

theorem length (h : Positions lines program) :
    program.instructions.length = lines.countP HoldsInstruction := by
  rw [List.countP_eq_length_filter]
  exact h.instructions.length_eq.symm

private theorem label_le (h : Positions lines program) {label : Str} {n : ℕ}
    (hlabel : program.labels.lookup label = some n) : n ≤ program.instructions.length := by
  obtain ⟨before, line, after, rfl, _, rfl⟩ := (h.labels label n).mp hlabel
  rw [h.length, List.countP_append]
  exact Nat.le_add_right _ _

theorem nil : Positions [] (⟨[], ∅⟩ : Program T) where
  instructions := .nil
  labels label n := by
    simp [DefinedAt]

theorem accepts (h : Positions lines program) {line : Str} {k : ℕ}
    (haccepts : Accepts program line k program') : Positions (lines ++ [line]) program' := by
  cases haccepts with
  | blank hblank =>
      constructor
      · simpa [not_holdsInstruction_blank hblank] using h.instructions
      · intro label n
        simp [definedAt_concat, not_definesLabel_blank hblank, h.labels]
  | @instruction instruction _ hinstruction =>
      have hholds : HoldsInstruction line := by
        refine decide_eq_true ?_
        by_contra hcommand
        rw [parseInstruction_eq_none_iff.mpr hcommand] at hinstruction
        exact nomatch hinstruction
      constructor
      · rw [List.filter_append, List.filter_singleton, hholds]
        exact List.rel_append h.instructions (.cons ⟨k, hinstruction⟩ .nil)
      · intro label n
        -- the mnemonics do not end in a colon
        have hlabel : ¬ DefinesLabel line label := fun hlabel => by
          rw [hlabel.not_holdsInstruction] at hholds
          exact nomatch hholds
        simp [definedAt_concat, hlabel, h.labels]
  | label _ hinstruction hcolon hempty hnew =>
      have hholds : HoldsInstruction line = false :=
        decide_eq_false (parseInstruction_eq_none_iff.mp hinstruction)
      constructor
      · simpa [hholds] using h.instructions
      · intro label n
        rw [definedAt_concat, ← h.length, ← h.labels, definesLabel_iff]
        by_cases hlabel : label = trimEndMatches ':' (command line)
        · subst hlabel
          rw [Finmap.lookup_insert, Finmap.lookup_eq_none.mpr hnew]
          simp [hcolon, hempty, eq_comm]
        · rw [Finmap.lookup_insert_of_ne _ hlabel]
          simp [hlabel]

end Positions

theorem positions_parseProgram {text : Str} {program : Program T}
    (h : parseProgram text = .ok program) : Positions (lines text) program := by
  have := foldlM_induction (motive := fun done program => Positions (done.map Prod.fst) program) h
    .nil (fun done item acc acc' hacc hitem => ?_)
  · rwa [List.zipIdx_map_fst] at this
  · rw [List.map_append]
    exact hacc.accepts (parseLine_eq_ok.mp hitem)

/-! ## An instruction -/

/-- What the instruction reads. -/
def Instruction.operands : Instruction T → List (ReadableExpr T)
  | .set _ src => [src]
  | .print expr => [expr]
  | .add dest src => [src, dest.asRead]
  | .sub dest src => [src, dest.asRead]
  | .jumpIfNotZero src _ => [src]

/-- Where the instruction writes. -/
def Instruction.dest : Instruction T → Option WritableExpr
  | .set dest _ => some dest
  | .print _ => none
  | .add dest _ => some dest
  | .sub dest _ => some dest
  | .jumpIfNotZero _ _ => none

/-- The ways in which an instruction can fail on a machine. -/
inductive Fails (program : Program T) (instruction : Instruction T) (machine : Machine T) :
    Failure ExecutionError → Prop
  | read {expr : ReadableExpr T} {e : ReadError} (hexpr : expr ∈ instruction.operands)
      (hread : machine.cpu.read expr = .error e) :
      Fails program instruction machine (.error (.read e))
  | write {dest : WritableExpr} {value : T} {e : WriteError}
      (hdest : instruction.dest = some dest) (hwrite : machine.cpu.write dest value = .error e) :
      Fails program instruction machine (.error (.write e))
  | overflow : Fails program instruction machine .overflow
  | invalidLabel {src : ReadableExpr T} {label : Str} {value : T}
      (hinstruction : instruction = .jumpIfNotZero src label)
      (hread : machine.cpu.read src = .ok value) (hzero : Value.isZero value = false)
      (hlabel : program.resolveLabel label = none) :
      Fails program instruction machine (.error (.invalidLabel label))

/-- What is known when the `match` of an instruction is done: the pointer has not moved, a
target is where a label is, and a failure is one of the instruction. -/
def Targets (program : Program T) (instruction : Instruction T) (machine : Machine T) :
    EStateM.Result (Failure ExecutionError) (Machine T) (Option ℕ) → Prop
  | .ok target machine' =>
      machine'.cpu.instructionPointer = machine.cpu.instructionPointer ∧
        ∀ index ∈ target, ∃ label, program.resolveLabel label = some index
  | .error failure machine' =>
      machine'.cpu.instructionPointer = machine.cpu.instructionPointer ∧
        Fails program instruction machine failure

variable {program : Program T} {instruction : Instruction T} {machine : Machine T}

section Rules

variable {α : Type} {f : α → Exec ExecutionError T (Option ℕ)}

theorem targets_read {expr : ReadableExpr T} {f : T → Exec ExecutionError T (Option ℕ)}
    (hexpr : expr ∈ instruction.operands)
    (hf : ∀ value, machine.cpu.read expr = .ok value →
      Targets program instruction machine ((f value).run machine)) :
    Targets program instruction machine ((Exec.read expr >>= f).run machine) := by
  rw [EStateM.run_bind, Exec.run_read]
  cases hread : machine.cpu.read expr with
  | ok value => exact hf value hread
  | error e => exact ⟨rfl, .read hexpr hread⟩

theorem targets_write {dest : WritableExpr} {value : T} (hdest : instruction.dest = some dest) :
    Targets program instruction machine
      ((do Exec.write dest value; return none : Exec ExecutionError T (Option ℕ)).run machine) := by
  rw [EStateM.run_bind, Exec.run_write]
  cases hwrite : machine.cpu.write dest value with
  | ok cpu => exact ⟨Cpu.write_instructionPointer hwrite, nofun⟩
  | error e => exact ⟨rfl, .write hdest hwrite⟩

theorem targets_checked {result : Option α}
    (hf : ∀ a, Targets program instruction machine ((f a).run machine)) :
    Targets program instruction machine ((Exec.checked result >>= f).run machine) := by
  rw [EStateM.run_bind, Exec.run_checked]
  cases result with
  | some a => exact hf a
  | none => exact ⟨rfl, .overflow⟩

end Rules

theorem targets_ipTarget (program : Program T) (instruction : Instruction T)
    (machine : Machine T) :
    Targets program instruction machine ((ipTarget program instruction).run machine) := by
  cases instruction with
  | set dest src =>
      exact targets_read (by simp [Instruction.operands]) fun value _ => targets_write rfl
  | add dest src =>
      exact targets_read (by simp [Instruction.operands]) fun _ _ =>
        targets_read (by simp [Instruction.operands]) fun _ _ =>
          targets_checked fun _ => targets_write rfl
  | sub dest src =>
      exact targets_read (by simp [Instruction.operands]) fun _ _ =>
        targets_read (by simp [Instruction.operands]) fun _ _ =>
          targets_checked fun _ => targets_write rfl
  | print expr =>
      exact targets_read (by simp [Instruction.operands]) fun value _ => ⟨rfl, nofun⟩
  | jumpIfNotZero src label =>
      refine targets_read (by simp [Instruction.operands]) fun value hread => ?_
      cases hzero : Value.isZero value with
      | true => exact ⟨rfl, nofun⟩
      | false =>
          cases hlabel : program.resolveLabel label with
          | none => exact ⟨rfl, .invalidLabel rfl hread hzero hlabel⟩
          | some index => exact ⟨rfl, fun _ hindex => ⟨label, by rw [hlabel, hindex]⟩⟩

/-! ## What an instruction does to the pointer -/

theorem eq_of_increment {ip next : ℕ} (h : increment ip = some next) : next = ip + 1 := by
  unfold increment at h
  split_ifs at h
  exact (Option.some.inj h).symm

/-- What is known when an instruction is done: the pointer is at the next one or at a label, or
it has not moved and the failure is one of the instruction. -/
def Executed (program : Program T) (instruction : Instruction T) (machine : Machine T) :
    EStateM.Result (Failure ExecutionError) (Machine T) Unit → Prop
  | .ok _ machine' =>
      machine'.cpu.instructionPointer = machine.cpu.instructionPointer + 1 ∨
        ∃ label, program.resolveLabel label = some machine'.cpu.instructionPointer
  | .error failure machine' =>
      machine'.cpu.instructionPointer = machine.cpu.instructionPointer ∧
        Fails program instruction machine failure

theorem executed_executeInstruction (program : Program T) (instruction : Instruction T)
    (machine : Machine T) :
    Executed program instruction machine
      ((executeInstruction program instruction).run machine) := by
  have htargets := targets_ipTarget program instruction machine
  rw [executeInstruction, EStateM.run_bind]
  cases htarget : (ipTarget program instruction).run machine with
  | error failure machine₁ =>
      rw [htarget] at htargets
      exact htargets
  | ok target machine₁ =>
      rw [htarget] at htargets
      obtain ⟨hip, hlabel⟩ := htargets
      cases target with
      | some index =>
          obtain ⟨label, hlabel⟩ := hlabel index rfl
          exact .inr ⟨label, hlabel⟩
      | none =>
          -- the pointer is a `usize`, too, and its increment is checked
          simp only [EStateM.run_bind, run_getIp, Exec.run_checked]
          cases hnext : increment machine₁.cpu.instructionPointer with
          | none => exact ⟨hip, .overflow⟩
          | some next =>
              left
              rw [← hip]
              exact eq_of_increment hnext

/-! ## Runs -/

section Pointer

variable {machine' : Machine T}

/-- The pointer stays within the program, or right behind it. -/
theorem pointer_le_of_step
    (hlabels : ∀ label n, program.resolveLabel label = some n → n ≤ program.instructions.length)
    (hstep : Step program machine machine') :
    machine'.cpu.instructionPointer ≤ program.instructions.length := by
  unfold Step at hstep
  cases hfetch : program.instructions[machine.cpu.instructionPointer]? with
  | none =>
      rw [iterate_run_end (List.getElem?_eq_none_iff.mp hfetch)] at hstep
      exact nomatch hstep
  | some instruction =>
      rw [iterate_run hfetch] at hstep
      have hexecuted := executed_executeInstruction program instruction machine
      cases hrun : (executeInstruction program instruction).run machine with
      | error failure machine₁ =>
          rw [hrun] at hstep
          exact nomatch hstep
      | ok _ machine₁ =>
          rw [hrun] at hstep hexecuted
          cases hstep
          rcases hexecuted with hnext | ⟨label, hlabel⟩
          · -- the fetch was in bounds
            rw [hnext]
            exact (List.getElem?_eq_some_iff.mp hfetch).1
          · exact hlabels label _ hlabel

theorem pointer_le_of_reaches
    (hlabels : ∀ label n, program.resolveLabel label = some n → n ≤ program.instructions.length)
    (hip : machine.cpu.instructionPointer ≤ program.instructions.length)
    (hrun : Reaches program machine machine') :
    machine'.cpu.instructionPointer ≤ program.instructions.length := by
  induction hrun with
  | refl => exact hip
  | tail _ hstep _ => exact pointer_le_of_step hlabels hstep

end Pointer

/-! ## Errors explained by the text -/

/-- The failures that a program read from `lines` can have: those of the fetched
instruction, where an unknown label is one that no line defines. -/
inductive Explained (lines : List Str) (program : Program T) (machine : Machine T) :
    Failure ExecutionError → Prop
  | read {instruction : Instruction T} {expr : ReadableExpr T} {e : ReadError}
      (hfetch : program.instructions[machine.cpu.instructionPointer]? = some instruction)
      (hexpr : expr ∈ instruction.operands) (hread : machine.cpu.read expr = .error e) :
      Explained lines program machine (.error (.read e))
  | write {instruction : Instruction T} {dest : WritableExpr} {value : T} {e : WriteError}
      (hfetch : program.instructions[machine.cpu.instructionPointer]? = some instruction)
      (hdest : instruction.dest = some dest) (hwrite : machine.cpu.write dest value = .error e) :
      Explained lines program machine (.error (.write e))
  | overflow : Explained lines program machine .overflow
  | invalidLabel {src : ReadableExpr T} {label : Str} {value : T}
      (hfetch : program.instructions[machine.cpu.instructionPointer]? =
        some (.jumpIfNotZero src label))
      (hread : machine.cpu.read src = .ok value) (hzero : Value.isZero value = false)
      (hlabel : ∀ line ∈ lines, ¬ DefinesLabel line label) :
      Explained lines program machine (.error (.invalidLabel label))

namespace Positions

variable {lines : List Str} {machine' : Machine T}

private theorem not_definesLabel (h : Positions lines program) {label : Str}
    (hlabel : program.resolveLabel label = none) : ∀ line ∈ lines, ¬ DefinesLabel line label := by
  intro line hline hdefines
  obtain ⟨before, after, hlines⟩ := List.append_of_mem hline
  have := (h.labels label _).mpr ⟨before, line, after, hlines, hdefines, rfl⟩
  rw [Program.resolveLabel, this] at hlabel
  exact nomatch hlabel

theorem reaches (h : Positions lines program)
    (hip : machine.cpu.instructionPointer ≤ program.instructions.length)
    (hrun : Reaches program machine machine') :
    machine'.cpu.instructionPointer ≤ program.instructions.length :=
  pointer_le_of_reaches (fun _ _ => h.label_le) hip hrun

theorem fails (h : Positions lines program) {failure : Failure ExecutionError}
    (hfails : (iterate program).run machine = .error failure machine') :
    machine'.cpu.instructionPointer = machine.cpu.instructionPointer ∧
      Explained lines program machine failure := by
  cases hfetch : program.instructions[machine.cpu.instructionPointer]? with
  | none =>
      rw [iterate_run_end (List.getElem?_eq_none_iff.mp hfetch)] at hfails
      exact nomatch hfails
  | some instruction =>
      rw [iterate_run hfetch] at hfails
      have hexecuted := executed_executeInstruction program instruction machine
      cases hrun : (executeInstruction program instruction).run machine with
      | ok _ machine₁ =>
          rw [hrun] at hfails
          exact nomatch hfails
      | error failure machine₁ =>
          rw [hrun] at hfails hexecuted
          cases hfails
          obtain ⟨hip, hfailure⟩ := hexecuted
          refine ⟨hip, ?_⟩
          cases hfailure with
          | read hexpr hread => exact .read hfetch hexpr hread
          | write hdest hwrite => exact .write hfetch hdest hwrite
          | overflow => exact .overflow
          | invalidLabel hinstruction hread hzero hlabel =>
              exact .invalidLabel (hinstruction ▸ hfetch) hread hzero (h.not_definesLabel hlabel)

end Positions

/-! ## The two together -/

/-- For every accepted text: the instructions are those of the lines, in their order, and a
label is the number of instructions on the lines before it.  In every run from pointer 0
the pointer is at most the number of instructions, the fetch is in bounds, and a failure is
one of the fetched instruction's operands, of arithmetic, or a jump to a label that no line
defines. -/
theorem labels_and_pointer {text : Str} {program : Program T}
    (hparse : parseProgram text = .ok program) :
    List.Forall₂ Reads ((lines text).filter HoldsInstruction) program.instructions ∧
      (∀ label n, program.resolveLabel label = some n ↔ DefinedAt (lines text) label n) ∧
      (∀ label n, program.resolveLabel label = some n → n ≤ program.instructions.length) ∧
      ∀ (registers memory : List (MemoryCell T)) (machine : Machine T),
        Reaches program ⟨⟨registers, memory, 0⟩, []⟩ machine →
        machine.cpu.instructionPointer ≤ program.instructions.length ∧
        ∀ failure machine', (iterate program).run machine = .error failure machine' →
          machine'.cpu.instructionPointer ≤ program.instructions.length ∧
          Explained (lines text) program machine failure := by
  have hpositions := positions_parseProgram hparse
  refine ⟨hpositions.instructions, hpositions.labels, fun _ _ => hpositions.label_le, ?_⟩
  intro registers memory machine hrun
  have hip := hpositions.reaches (Nat.zero_le _) hrun
  refine ⟨hip, fun failure machine' hfails => ?_⟩
  obtain ⟨hip', hexplained⟩ := hpositions.fails hfails
  exact ⟨hip'.trans_le hip, hexplained⟩

/-- A loop that is left by a jump to a label that the text does not have; one of its labels
is at the end. -/
theorem labels_and_pointer_loop :
    Explained (T := UInt8)
      (lines "MOV R0, 2\nloop:\nSUB R0, 1\nJNZ R0, loop\n\nJNZ 1, out\nend:".toList)
      ⟨[.set (.register 0) (.constant 2), .sub (.register 0) (.constant 1),
        .jumpIfNotZero (.register 0) "loop".toList, .jumpIfNotZero (.constant 1) "out".toList],
        (Finmap.insert "loop".toList 1 ∅).insert "end".toList 4⟩
      ⟨⟨[.defined 0], [], 3⟩, []⟩ (.error (.invalidLabel "out".toList)) := by
  obtain ⟨-, -, -, hruns⟩ := labels_and_pointer (T := UInt8) (rfl : parseProgram
    "MOV R0, 2\nloop:\nSUB R0, 1\nJNZ R0, loop\n\nJNZ 1, out\nend:".toList = _)
  refine ((hruns [.undefined] [] ⟨⟨[.defined 0], [], 3⟩, []⟩ ?_).2 _ _ rfl).2
  exact .head rfl <| .head rfl <| .head rfl <| .head rfl <| .head rfl .refl

end RustCourse.Assembly.Stage04
