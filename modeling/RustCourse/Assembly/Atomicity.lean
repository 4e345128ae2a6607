import RustCourse.Assembly.Labels
import RustCourse.Lib.Effects

/-!
# An instruction that fails has no effect

`execute_instruction` reads its operands, then writes or prints, and moves the instruction
pointer last.  An `Err` comes from a read, from the write itself or from the label of a
jump, so it leaves everything as it was, and an instruction that succeeds changes its
destination and nothing else.  The panics are apart: the increment of the pointer comes
behind the write.

The cells are counted here, since a CPU may have more of them than there are addresses.

## Strategy

`Leaves`, `Within`, `Atomic` and `Avoids` are the four things that can be said of an effect,
and each effect has its lemmas.  An instruction is then taken apart at its binds.  A failing
read is atomic since reads change nothing; what stands behind a write only moves the pointer,
which cannot fail with an `Err`, so `Atomic.bind_of_avoids` applies.  That the pointer goes to
the next instruction or to a label is kept apart (`pointer_of_executeInstruction`).
-/

namespace RustCourse.Assembly

open Effects

/-! ## Cells -/

/-- A cell of the registers or of the memory. -/
inductive Cell
  | register (index : ℕ)
  | memory (index : ℕ)
  deriving DecidableEq, Repr

/-- The cell at an address. -/
def AddressableExpr.cell : AddressableExpr → Cell
  | .register reg => .register reg.toNat
  | .memory address => .memory address.toNat

variable {T : Type}

/-- The content of a cell, if the CPU has it. -/
def Cpu.contents (cpu : Cpu T) : Cell → Option (MemoryCell T)
  | .register index => cpu.registers[index]?
  | .memory index => cpu.memory[index]?

/-- The cells are the same ones as before, and only the one at the destination may have another
content. -/
structure ChangesOnly (dest : Option WritableExpr) (cpu cpu' : Cpu T) : Prop where
  registers : cpu'.registers.length = cpu.registers.length
  memory : cpu'.memory.length = cpu.memory.length
  contents : ∀ cell, (∀ address, dest = some (.addressable address) → address.cell ≠ cell) →
    cpu'.contents cell = cpu.contents cell

namespace ChangesOnly

variable {dest : Option WritableExpr} {cpu cpu' : Cpu T}

theorem refl (cpu : Cpu T) : ChangesOnly dest cpu cpu :=
  ⟨rfl, rfl, fun _ _ => rfl⟩

theorem trans {cpu'' : Cpu T} (h : ChangesOnly dest cpu cpu') (h' : ChangesOnly dest cpu' cpu'') :
    ChangesOnly dest cpu cpu'' where
  registers := h'.registers.trans h.registers
  memory := h'.memory.trans h.memory
  contents cell hcell := (h'.contents cell hcell).trans (h.contents cell hcell)

theorem setIp (cpu : Cpu T) (ip : ℕ) : ChangesOnly dest cpu (cpu.setIp ip) where
  registers := rfl
  memory := rfl
  contents cell _ := by cases cell <;> rfl

theorem setCell (cpu : Cpu T) (value : MemoryCell T) (address : AddressableExpr) :
    ChangesOnly (some (.addressable address)) cpu (cpu.setCell value address) := by
  cases address with
  | register reg =>
      refine ⟨List.length_set, rfl, fun cell hcell => ?_⟩
      cases cell with
      | register index =>
          refine List.getElem?_set_ne fun heq => ?_
          exact hcell _ rfl (congrArg Cell.register heq)
      | memory index => rfl
  | memory address =>
      refine ⟨rfl, List.length_set, fun cell hcell => ?_⟩
      cases cell with
      | register index => rfl
      | memory index =>
          refine List.getElem?_set_ne fun heq => ?_
          exact hcell _ rfl (congrArg Cell.memory heq)

theorem write {dest : WritableExpr} {value : T} (h : cpu.write dest value = .ok cpu') :
    ChangesOnly (some dest) cpu cpu' := by
  obtain ⟨address⟩ := dest
  cases hcell : cpu.getCell address with
  | none => simp [Cpu.write, hcell] at h
  | some cell =>
      simp only [Cpu.write, hcell, Except.ok.injEq] at h
      rw [← h]
      exact setCell cpu _ address

end ChangesOnly

namespace Stage04

/-- An `Err`, and not a panic. -/
def IsErr : Failure ExecutionError → Prop
  | .error _ => True
  | .overflow | .indexOutOfBounds => False

/-- Another state of the CPU, up to the destination. -/
def Frame (dest : Option WritableExpr) (machine machine' : Machine T) : Prop :=
  ChangesOnly dest machine.cpu machine'.cpu

instance (dest : Option WritableExpr) : Std.Refl (Frame (T := T) dest) where
  refl machine := ChangesOnly.refl machine.cpu

instance (dest : Option WritableExpr) : IsTrans (Machine T) (Frame dest) where
  trans _ _ _ := ChangesOnly.trans

/-! ## The effects one by one -/

section Effects

variable {α : Type} {dest : Option WritableExpr}

theorem leaves_read (expr : ReadableExpr T) :
    Leaves Eq (Exec.read expr : Exec ExecutionError T T) := by
  intro machine
  rw [Exec.run_read]
  cases machine.cpu.read expr <;> rfl

theorem within_read (expr : ReadableExpr T) :
    Within Eq (Exec.read expr : Exec ExecutionError T T) :=
  (leaves_read expr).within

theorem atomic_read (expr : ReadableExpr T) :
    Atomic IsErr (Exec.read expr : Exec ExecutionError T T) := by
  intro machine failure machine' h _
  rw [Exec.run_read] at h
  cases hread : machine.cpu.read expr with
  | ok value =>
      rw [hread] at h
      exact nomatch h
  | error e =>
      rw [hread] at h
      cases h
      rfl

theorem leaves_checked (result : Option α) :
    Leaves Eq (Exec.checked result : Exec ExecutionError T α) := by
  intro machine
  cases result <;> rfl

theorem within_checked (result : Option α) :
    Within Eq (Exec.checked result : Exec ExecutionError T α) :=
  (leaves_checked result).within

theorem avoids_checked (result : Option α) :
    Avoids IsErr (Exec.checked result : Exec ExecutionError T α) := by
  intro machine failure machine' h
  cases result with
  | some value => exact nomatch h
  | none =>
      cases h
      exact id

theorem leaves_write (dest : WritableExpr) (value : T) :
    Leaves (Frame (some dest)) (Exec.write dest value : Exec ExecutionError T Unit) := by
  intro machine
  rw [Exec.run_write]
  cases hwrite : machine.cpu.write dest value with
  | ok cpu => exact ChangesOnly.write hwrite
  | error e => exact ChangesOnly.refl machine.cpu

theorem atomic_write (dest : WritableExpr) (value : T) :
    Atomic IsErr (Exec.write dest value : Exec ExecutionError T Unit) := by
  intro machine failure machine' h _
  rw [Exec.run_write] at h
  cases hwrite : machine.cpu.write dest value with
  | ok cpu =>
      rw [hwrite] at h
      exact nomatch h
  | error e =>
      rw [hwrite] at h
      cases h
      rfl

theorem leaves_println (value : T) :
    Leaves (Frame dest) (Exec.println value : Exec ExecutionError T Unit) :=
  fun machine => ChangesOnly.refl machine.cpu

theorem avoids_println (value : T) :
    Avoids IsErr (Exec.println value : Exec ExecutionError T Unit) :=
  fun _ _ _ h => nomatch h

theorem leaves_getIp : Leaves Eq (getIp : Exec ExecutionError T ℕ) :=
  fun _ => rfl

theorem avoids_getIp : Avoids IsErr (getIp : Exec ExecutionError T ℕ) :=
  fun _ _ _ h => nomatch h

theorem leaves_setIp (ip : ℕ) : Leaves (Frame dest) (setIp ip : Exec ExecutionError T Unit) :=
  fun machine => ChangesOnly.setIp machine.cpu ip

theorem avoids_setIp (ip : ℕ) : Avoids IsErr (setIp ip : Exec ExecutionError T Unit) :=
  fun _ _ _ h => nomatch h

end Effects

variable [Value T] (program : Program T) (instruction : Instruction T)

/-! ## The instruction -/

/-- What reads comes first, and what cannot fail comes last. -/
theorem atomic_ipTarget : Atomic IsErr (ipTarget program instruction) := by
  cases instruction with
  | set dest src =>
      refine .bind (atomic_read src) (within_read src) fun value => ?_
      exact .bind_of_avoids (atomic_write dest value) fun _ => .pure none
  | add dest src | sub dest src =>
      refine .bind (atomic_read src) (within_read src) fun srcVal => ?_
      refine .bind (atomic_read _) (within_read _) fun destVal => ?_
      refine .bind (.of_avoids (avoids_checked _)) (within_checked _) fun result => ?_
      exact .bind_of_avoids (atomic_write dest result) fun _ => .pure none
  | print expr =>
      refine .bind (atomic_read expr) (within_read expr) fun value => ?_
      exact .bind_of_avoids (.of_avoids (avoids_println value)) fun _ => .pure none
  | jumpIfNotZero src label =>
      refine .bind (atomic_read src) (within_read src) fun value => ?_
      split
      · split
        · exact .pure _
        · exact .throw _
      · exact .pure none

theorem atomic_executeInstruction : Atomic IsErr (executeInstruction program instruction) := by
  refine .bind_of_avoids (atomic_ipTarget program instruction) fun target => ?_
  cases target with
  | some ip => exact avoids_setIp ip
  | none => exact .bind avoids_getIp fun _ => .bind (avoids_checked _) avoids_setIp

theorem leaves_ipTarget : Leaves (Frame instruction.dest) (ipTarget program instruction) := by
  cases instruction with
  | set dest src =>
      refine .bind (.of_eq (leaves_read src)) fun value => ?_
      exact .bind (leaves_write dest value) fun _ => .pure none
  | add dest src | sub dest src =>
      refine .bind (.of_eq (leaves_read src)) fun srcVal => ?_
      refine .bind (.of_eq (leaves_read _)) fun destVal => ?_
      refine .bind (.of_eq (leaves_checked _)) fun result => ?_
      exact .bind (leaves_write dest result) fun _ => .pure none
  | print expr =>
      refine .bind (.of_eq (leaves_read expr)) fun value => ?_
      exact .bind (leaves_println value) fun _ => .pure none
  | jumpIfNotZero src label =>
      refine .bind (.of_eq (leaves_read src)) fun value => ?_
      split
      · split
        · exact .pure _
        · exact .throw _
      · exact .pure none

/-- Even an instruction that panics writes its destination only. -/
theorem leaves_executeInstruction :
    Leaves (Frame instruction.dest) (executeInstruction program instruction) := by
  refine .bind (leaves_ipTarget program instruction) fun target => ?_
  cases target with
  | some ip => exact leaves_setIp ip
  | none =>
      refine .bind (.of_eq leaves_getIp) fun ip => ?_
      exact .bind (.of_eq (leaves_checked _)) leaves_setIp

/-- Only a jump has a target, and it is its own label. -/
theorem returns_ipTarget :
    Returns (fun target => ∀ ip ∈ target, ∃ src label,
      instruction = .jumpIfNotZero src label ∧ program.resolveLabel label = some ip)
      (ipTarget program instruction) := by
  cases instruction with
  | set dest src => exact .bind fun _ => .bind fun _ => .pure nofun
  | add dest src | sub dest src =>
      exact .bind fun _ => .bind fun _ => .bind fun _ => .bind fun _ => .pure nofun
  | print expr => exact .bind fun _ => .bind fun _ => .pure nofun
  | jumpIfNotZero src label =>
      refine .bind fun value => ?_
      split
      · split
        · next index hlabel =>
            refine .pure ?_
            rintro ip ⟨⟩
            exact ⟨src, label, rfl, hlabel⟩
        · exact .throw _
      · exact .pure nofun

theorem pointer_of_executeInstruction {machine machine' : Machine T}
    (h : (executeInstruction program instruction).run machine = .ok () machine') :
    machine'.cpu.instructionPointer = machine.cpu.instructionPointer + 1 ∨
      ∃ src label, instruction = .jumpIfNotZero src label ∧
        program.resolveLabel label = some machine'.cpu.instructionPointer := by
  obtain ⟨target, machine₁, htarget, hset⟩ := run_bind_eq_ok.mp h
  have htargets := targets_ipTarget program instruction machine
  rw [htarget] at htargets
  cases target with
  | some ip =>
      right
      cases hset
      exact returns_ipTarget program instruction _ _ _ htarget ip rfl
  | none =>
      left
      obtain ⟨ip, machine₂, hip, hset⟩ := run_bind_eq_ok.mp hset
      cases hip
      obtain ⟨next, machine₃, hnext, hset⟩ := run_bind_eq_ok.mp hset
      cases hset
      rw [← htargets.1]
      cases hincrement : increment machine₁.cpu.instructionPointer with
      | none =>
          rw [hincrement] at hnext
          exact nomatch hnext
      | some next' =>
          rw [hincrement] at hnext
          cases hnext
          exact eq_of_increment hincrement

/-- **An instruction that fails has no effect**, and one that succeeds writes at most its
destination and moves the pointer to the next instruction or to its label. -/
theorem executeInstruction_atomic (machine machine' : Machine T) :
    (∀ e, (executeInstruction program instruction).run machine = .error (.error e) machine' →
        machine' = machine) ∧
      ((executeInstruction program instruction).run machine = .ok () machine' →
        ChangesOnly instruction.dest machine.cpu machine'.cpu ∧
          (machine'.cpu.instructionPointer = machine.cpu.instructionPointer + 1 ∨
            ∃ src label, instruction = .jumpIfNotZero src label ∧
              program.resolveLabel label = some machine'.cpu.instructionPointer)) := by
  constructor
  · intro e h
    exact atomic_executeInstruction program instruction _ _ _ h trivial
  · intro h
    exact ⟨(leaves_executeInstruction program instruction).within _ _ _ h,
      pointer_of_executeInstruction program instruction h⟩

/-- An addition to an undefined register has read its other operand when it fails; an addition
of a register to itself succeeds. -/
theorem executeInstruction_atomic_add :
    (∃ machine' : Machine UInt8,
      (executeInstruction ⟨[], ∅⟩ (.add (.register 1) (.register 0))).run
          ⟨⟨[.defined 3, .undefined], [], 7⟩, []⟩ =
        .error (.error (.read (.undefined (.register 1)))) machine' ∧
      machine' = ⟨⟨[.defined 3, .undefined], [], 7⟩, []⟩) ∧
    ChangesOnly (T := UInt8) (some (.register 0)) ⟨[.defined 3, .undefined], [], 7⟩
      ⟨[.defined 6, .undefined], [], 8⟩ := by
  constructor
  · refine ⟨_, rfl, (executeInstruction_atomic (⟨[], ∅⟩ : Program UInt8)
      (.add (.register 1) (.register 0)) _ _).1 (.read (.undefined (.register 1))) rfl⟩
  · exact ((executeInstruction_atomic (⟨[], ∅⟩ : Program UInt8)
      (.add (.register 0) (.register 0)) ⟨⟨[.defined 3, .undefined], [], 7⟩, []⟩
      ⟨⟨[.defined 6, .undefined], [], 8⟩, []⟩).2 rfl).1

end Stage04

end RustCourse.Assembly
