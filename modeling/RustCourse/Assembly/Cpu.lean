import Mathlib.Data.Nat.Notation

/-!
# The CPU of the assembly interpreter

`cpu.rs` and `memory.rs` are the same in stages 03 and 04 of the project.  `get_cell` and
`get_cell_mut` look an address up; the mutable one is followed by one assignment, which is
`setCell` here.

The instruction pointer is a field of the CPU, and stage 03 has it without using it.  The
interpreters are compared at every position of the pointer, so the lemmas below say that no
access to a cell looks at the pointer or moves it.
-/

namespace RustCourse.Assembly

/-! ## Memory and operands -/

/-- A register or a byte of the memory, before or after it was first written. -/
inductive MemoryCell (T : Type)
  | undefined
  | defined (value : T)
  deriving DecidableEq, Repr

/-- Where an operand is stored; a number need not be one the CPU has. -/
inductive AddressableExpr
  | register (reg : UInt8)
  | memory (address : UInt32)
  deriving DecidableEq, Repr

/-- What an instruction may write to. -/
inductive WritableExpr
  | addressable (address : AddressableExpr)
  deriving DecidableEq, Repr

/-- What an instruction may read. -/
inductive ReadableExpr (T : Type)
  | addressable (addr : AddressableExpr)
  | constant (value : T)
  deriving DecidableEq, Repr

namespace WritableExpr

def register (index : UInt8) : WritableExpr := addressable (.register index)

/-- `as_read`: a destination is also an operand. -/
def asRead {T : Type} : WritableExpr → ReadableExpr T
  | addressable addr => .addressable addr

end WritableExpr

def ReadableExpr.register {T : Type} (index : UInt8) : ReadableExpr T :=
  addressable (.register index)

/-! ## The CPU -/

/-- Why `Cpu::read` fails. -/
inductive ReadError
  | undefined (addr : AddressableExpr)
  | outOfBounds (addr : AddressableExpr)
  deriving DecidableEq, Repr

/-- Why `Cpu::write` fails. -/
inductive WriteError
  | outOfBounds (addr : AddressableExpr)
  deriving DecidableEq, Repr

/-- Registers, memory and the pointer, which stage 03 does not use. -/
structure Cpu (T : Type) where
  registers : List (MemoryCell T)
  memory : List (MemoryCell T)
  instructionPointer : ℕ
  deriving DecidableEq, Repr

namespace Cpu

variable {T : Type}

/-- The cell of an address; `none` is out of bounds. -/
def getCell (cpu : Cpu T) : AddressableExpr → Option (MemoryCell T)
  | .register reg => cpu.registers[reg.toNat]?
  | .memory address => cpu.memory[address.toNat]?

/-- `*cell = value` for the cell at an address. -/
def setCell (cpu : Cpu T) (value : MemoryCell T) : AddressableExpr → Cpu T
  | .register reg => { cpu with registers := cpu.registers.set reg.toNat value }
  | .memory address => { cpu with memory := cpu.memory.set address.toNat value }

/-- `Cpu::read` -/
def read (cpu : Cpu T) : ReadableExpr T → Except ReadError T
  | .addressable addr =>
      match cpu.getCell addr with
      | none => .error (.outOfBounds addr)
      | some (.defined value) => .ok value
      | some .undefined => .error (.undefined addr)
  | .constant value => .ok value

/-- `Cpu::write` -/
def write (cpu : Cpu T) (expr : WritableExpr) (value : T) : Except WriteError (Cpu T) :=
  match expr with
  | .addressable address =>
      match cpu.getCell address with
      | none => .error (.outOfBounds address)
      | some _ => .ok (cpu.setCell (.defined value) address)

/-- `Cpu::set_ip` -/
def setIp (cpu : Cpu T) (ip : ℕ) : Cpu T := { cpu with instructionPointer := ip }

/-! ## The instruction pointer is apart from the cells -/

variable (cpu : Cpu T) (ip : ℕ)

@[simp] theorem setIp_instructionPointer : (cpu.setIp ip).instructionPointer = ip := rfl

@[simp] theorem setIp_setIp (ip' : ℕ) : (cpu.setIp ip).setIp ip' = cpu.setIp ip' := rfl

@[simp] theorem getCell_setIp (addr : AddressableExpr) :
    (cpu.setIp ip).getCell addr = cpu.getCell addr := by
  cases addr <;> rfl

@[simp] theorem setCell_setIp (value : MemoryCell T) (addr : AddressableExpr) :
    (cpu.setIp ip).setCell value addr = (cpu.setCell value addr).setIp ip := by
  cases addr <;> rfl

@[simp] theorem setCell_instructionPointer (value : MemoryCell T) (addr : AddressableExpr) :
    (cpu.setCell value addr).instructionPointer = cpu.instructionPointer := by
  cases addr <;> rfl

@[simp] theorem read_setIp (expr : ReadableExpr T) : (cpu.setIp ip).read expr = cpu.read expr := by
  cases expr with
  | addressable addr => simp [read]
  | constant value => rfl

@[simp] theorem write_setIp (expr : WritableExpr) (value : T) :
    (cpu.setIp ip).write expr value = (cpu.write expr value).map (setIp · ip) := by
  obtain ⟨address⟩ := expr
  simp only [write, getCell_setIp]
  cases cpu.getCell address with
  | none => rfl
  | some cell => simp [Except.map]

variable {cpu}

theorem write_instructionPointer {expr : WritableExpr} {value : T} {cpu' : Cpu T}
    (h : cpu.write expr value = .ok cpu') : cpu'.instructionPointer = cpu.instructionPointer := by
  obtain ⟨address⟩ := expr
  cases hcell : cpu.getCell address with
  | none => simp [write, hcell] at h
  | some cell =>
      simp only [write, hcell, Except.ok.injEq] at h
      rw [← h, setCell_instructionPointer]

end Cpu

end RustCourse.Assembly
