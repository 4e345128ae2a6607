import RustCourse.Assembly.Overflow

/-!
# What a run depends on

The text of a program names the cells it can have to do with.  A run reads no others, so two
CPUs that agree on them go the same way (`run_depends_on_named`); and it changes the
destinations only.  `SameOn` is what two machines have in common in the middle of two such
runs: the pointer, the cells named, and what was printed since the start.

## Strategy

Both parts go effect by effect.  For the first, `Lockstep` compares one effect on two machines
that agree on the cells named: a read of a named cell returns the same, and after a write they
agree again, since different addresses are different cells (`cell_injective`).  For the second,
`KeepsOthers` says of the states before and after that every cell but the destinations is as
it was; it is reflexive and transitive, so it passes from an effect to an iteration and to the
state in which a run ends, an error or a panic included.
-/

namespace RustCourse.Assembly

open Effects

variable {T : Type}

/-! ## The cells named -/

/-- The address that the operand reads, if it is no constant. -/
def ReadableExpr.address? : ReadableExpr T → Option AddressableExpr
  | .addressable address => some address
  | .constant _ => none

/-- The address that the destination writes. -/
def WritableExpr.address : WritableExpr → AddressableExpr
  | .addressable address => address

namespace Stage04

/-- The addresses that the instruction names. -/
def Instruction.addresses (instruction : Instruction T) : List AddressableExpr :=
  instruction.operands.filterMap ReadableExpr.address? ++
    instruction.dest.toList.map WritableExpr.address

/-- The cells that the program reads or writes. -/
def Program.addresses (program : Program T) : Finset AddressableExpr :=
  (program.instructions.flatMap Instruction.addresses).toFinset

/-- The cells that the program writes. -/
def Program.dests (program : Program T) : Finset AddressableExpr :=
  (program.instructions.filterMap fun instruction =>
    instruction.dest.map WritableExpr.address).toFinset

theorem Program.mem_addresses {program : Program T} {instruction : Instruction T}
    {address : AddressableExpr} (hmem : instruction ∈ program.instructions)
    (haddress : address ∈ instruction.addresses) : address ∈ program.addresses := by
  rw [Program.addresses, List.mem_toFinset]
  exact List.mem_flatMap.mpr ⟨instruction, hmem, haddress⟩

end Stage04

/-! ## Cells under a write -/

namespace Cpu

variable {cpu cpu' : Cpu T} {address other : AddressableExpr} {value : MemoryCell T}

theorem getCell_eq_contents (cpu : Cpu T) (address : AddressableExpr) :
    cpu.getCell address = cpu.contents address.cell := by
  cases address <;> rfl

theorem isSome_getCell : (cpu.getCell address).isSome ↔
    match address with
    | .register reg => reg.toNat < cpu.registers.length
    | .memory index => index.toNat < cpu.memory.length := by
  cases address <;> simp [getCell]

theorem cell_injective : Function.Injective AddressableExpr.cell := by
  intro a b h
  cases a with
  | register reg =>
      cases b with
      | register reg' => exact congrArg _ (UInt8.toNat_inj.mp (Cell.register.inj h))
      | memory address => cases h
  | memory address =>
      cases b with
      | register reg => cases h
      | memory address' => exact congrArg _ (UInt32.toNat_inj.mp (Cell.memory.inj h))

theorem getCell_setCell_self (h : (cpu.getCell address).isSome) :
    (cpu.setCell value address).getCell address = some value := by
  cases address with
  | register reg =>
      exact List.getElem?_set_self (isSome_getCell.mp h)
  | memory index =>
      exact List.getElem?_set_self (isSome_getCell.mp h)

theorem getCell_setCell_ne (h : other ≠ address) :
    (cpu.setCell value address).getCell other = cpu.getCell other := by
  rw [getCell_eq_contents, getCell_eq_contents]
  refine (ChangesOnly.setCell cpu value address).contents other.cell ?_
  rintro _ ⟨⟩ hcell
  exact h (cell_injective hcell.symm)

end Cpu

/-! ## Machines that agree on some cells -/

/-- The machines agree on where they are, on these cells, and on what they have printed behind
the two beginnings. -/
structure SameOn (addresses : Finset AddressableExpr) (start start' : List T)
    (machine machine' : Machine T) : Prop where
  pointer : machine.cpu.instructionPointer = machine'.cpu.instructionPointer
  cells : ∀ address ∈ addresses, machine.cpu.getCell address = machine'.cpu.getCell address
  printed : ∃ news, machine.printed = start ++ news ∧ machine'.printed = start' ++ news

/-- At the start nothing has been printed behind the beginnings. -/
theorem SameOn.start {addresses : Finset AddressableExpr} {machine machine' : Machine T}
    (hpointer : machine.cpu.instructionPointer = machine'.cpu.instructionPointer)
    (hcells : ∀ address ∈ addresses,
      machine.cpu.getCell address = machine'.cpu.getCell address) :
    SameOn addresses machine.printed machine'.printed machine machine' :=
  ⟨hpointer, hcells, [], (List.append_nil _).symm, (List.append_nil _).symm⟩

namespace Stage04

variable {addresses : Finset AddressableExpr} {start start' : List T}

section Effects

variable {α : Type}

theorem lockstep_read {expr : ReadableExpr T} (h : ∀ address ∈ expr.address?, address ∈ addresses) :
    Lockstep (SameOn addresses start start') (Exec.read expr : Exec ExecutionError T T) := by
  intro machine machine' hsame
  have hread : machine.cpu.read expr = machine'.cpu.read expr := by
    cases expr with
    | constant value => rfl
    | addressable address =>
        rw [Cpu.read, Cpu.read, hsame.cells address (h address rfl)]
  rw [Exec.run_read, Exec.run_read, hread]
  cases machine'.cpu.read expr with
  | ok value => exact .ok hsame
  | error e => exact .error hsame

theorem lockstep_write {dest : WritableExpr} (h : dest.address ∈ addresses) (value : T) :
    Lockstep (SameOn addresses start start')
      (Exec.write dest value : Exec ExecutionError T Unit) := by
  obtain ⟨address⟩ := dest
  intro machine machine' hsame
  have hcell := hsame.cells address h
  rw [Exec.run_write, Exec.run_write]
  simp only [Cpu.write]
  cases hbefore : machine'.cpu.getCell address with
  | none =>
      rw [hbefore] at hcell
      rw [hcell]
      exact .error hsame
  | some cell =>
      rw [hbefore] at hcell
      rw [hcell]
      refine .ok ⟨?_, fun other hother => ?_, hsame.printed⟩
      · simpa using hsame.pointer
      · show (machine.cpu.setCell _ address).getCell other =
          (machine'.cpu.setCell _ address).getCell other
        by_cases hne : other = address
        · rw [hne, Cpu.getCell_setCell_self (by rw [hcell]; rfl),
            Cpu.getCell_setCell_self (by rw [hbefore]; rfl)]
        · rw [Cpu.getCell_setCell_ne hne, Cpu.getCell_setCell_ne hne]
          exact hsame.cells other hother

theorem lockstep_println (value : T) :
    Lockstep (SameOn addresses start start') (Exec.println value : Exec ExecutionError T Unit) := by
  intro machine machine' hsame
  obtain ⟨news, hnews, hnews'⟩ := hsame.printed
  refine .ok ⟨hsame.pointer, hsame.cells, news ++ [value], ?_, ?_⟩
  · rw [← List.append_assoc, ← hnews]
  · rw [← List.append_assoc, ← hnews']

theorem lockstep_checked (result : Option α) :
    Lockstep (SameOn addresses start start')
      (Exec.checked result : Exec ExecutionError T α) := by
  cases result with
  | some value => exact .pure value
  | none => exact .throw _

theorem lockstep_getIp :
    Lockstep (SameOn addresses start start') (getIp : Exec ExecutionError T ℕ) := by
  intro machine machine' hsame
  rw [run_getIp, run_getIp, hsame.pointer]
  exact .ok hsame

theorem lockstep_setIp (ip : ℕ) :
    Lockstep (SameOn addresses start start') (setIp ip : Exec ExecutionError T Unit) := by
  intro machine machine' hsame
  refine .ok ⟨rfl, fun address haddress => ?_, hsame.printed⟩
  show (machine.cpu.setIp ip).getCell address = (machine'.cpu.setIp ip).getCell address
  rw [Cpu.getCell_setIp, Cpu.getCell_setIp]
  exact hsame.cells address haddress

end Effects

/-! ## The other cells -/

variable {program : Program T} {instruction : Instruction T} {machine machine' last : Machine T}

/-- The cells are the same ones as before, and only those at the destinations of the program may
have another content. -/
structure KeepsOthers (program : Program T) (machine machine' : Machine T) : Prop where
  registers : machine'.cpu.registers.length = machine.cpu.registers.length
  memory : machine'.cpu.memory.length = machine.cpu.memory.length
  contents : ∀ cell, (∀ address ∈ program.dests, address.cell ≠ cell) →
    machine'.cpu.contents cell = machine.cpu.contents cell

instance : Std.Refl (KeepsOthers program) where
  refl _ := ⟨rfl, rfl, fun _ _ => rfl⟩

instance : IsTrans (Machine T) (KeepsOthers program) where
  trans _ _ _ h h' :=
    ⟨h'.registers.trans h.registers, h'.memory.trans h.memory,
      fun cell hcell => (h'.contents cell hcell).trans (h.contents cell hcell)⟩

/-- The destination of an instruction is one of the program. -/
theorem KeepsOthers.of_frame (hmem : instruction ∈ program.instructions)
    (h : Frame instruction.dest machine machine') : KeepsOthers program machine machine' where
  registers := h.registers
  memory := h.memory
  contents cell hcell := by
    refine h.contents cell fun address hdest => hcell address ?_
    rw [Program.dests, List.mem_toFinset, List.mem_filterMap]
    exact ⟨instruction, hmem, by rw [hdest]; rfl⟩

/-- No cell comes or goes, and one that is not a destination is kept. -/
theorem KeepsOthers.getCell (h : KeepsOthers program machine machine')
    (address : AddressableExpr) :
    (machine'.cpu.getCell address).isSome = (machine.cpu.getCell address).isSome ∧
      (address ∉ program.dests → machine'.cpu.getCell address = machine.cpu.getCell address) := by
  constructor
  · rw [Bool.eq_iff_iff, Cpu.isSome_getCell, Cpu.isSome_getCell]
    cases address with
    | register reg => rw [h.registers]
    | memory index => rw [h.memory]
  · intro hdest
    rw [Cpu.getCell_eq_contents, Cpu.getCell_eq_contents]
    refine h.contents _ fun written hwritten hcell => hdest ?_
    rwa [← Cpu.cell_injective hcell]

/-! ## One iteration -/

variable [Value T]

theorem lockstep_ipTarget (h : ∀ address ∈ instruction.addresses, address ∈ addresses) :
    Lockstep (SameOn addresses start start') (ipTarget program instruction) := by
  -- the operands and the destination are cells that the instruction names
  have hread : ∀ {expr}, expr ∈ instruction.operands →
      Lockstep (SameOn addresses start start') (Exec.read expr : Exec ExecutionError T T) := by
    intro expr hexpr
    refine lockstep_read fun address haddress => h address ?_
    exact List.mem_append_left _ (List.mem_filterMap.mpr ⟨expr, hexpr, haddress⟩)
  have hwrite : ∀ {dest} (value : T), instruction.dest = some dest →
      Lockstep (SameOn addresses start start')
        (Exec.write dest value : Exec ExecutionError T Unit) := by
    intro dest value hdest
    refine lockstep_write (h _ ?_) value
    refine List.mem_append_right _ ?_
    rw [hdest]
    exact List.mem_singleton_self _
  cases instruction with
  | set dest src =>
      exact .bind (hread (by simp [Instruction.operands])) fun value =>
        .bind (hwrite value rfl) fun _ => .pure none
  | add dest src | sub dest src =>
      exact .bind (hread (by simp [Instruction.operands])) fun _ =>
        .bind (hread (by simp [Instruction.operands])) fun _ =>
          .bind (lockstep_checked _) fun result => .bind (hwrite result rfl) fun _ => .pure none
  | print expr =>
      exact .bind (hread (by simp [Instruction.operands])) fun value =>
        .bind (lockstep_println value) fun _ => .pure none
  | jumpIfNotZero src label =>
      refine .bind (hread (by simp [Instruction.operands])) fun value => ?_
      split
      · split
        · exact .pure _
        · exact .throw _
      · exact .pure none

theorem lockstep_executeInstruction
    (h : ∀ address ∈ instruction.addresses, address ∈ addresses) :
    Lockstep (SameOn addresses start start') (executeInstruction program instruction) := by
  refine .bind (lockstep_ipTarget h) fun target => ?_
  cases target with
  | some ip => exact lockstep_setIp ip
  | none => exact .bind lockstep_getIp fun ip => .bind (lockstep_checked _) lockstep_setIp

theorem lockstep_iterate (h : program.addresses ⊆ addresses) :
    Lockstep (SameOn addresses start start') (iterate program) := by
  refine .bind lockstep_getIp fun ip => ?_
  split
  · refine .bind lockstep_getIp fun ip => ?_
    split
    · next instruction hfetch =>
        refine .bind (lockstep_executeInstruction fun address haddress => ?_) fun _ => .pure true
        exact h (Program.mem_addresses (List.mem_of_getElem? hfetch) haddress)
    · exact .throw _
  · exact .pure false

theorem leaves_iterate (program : Program T) : Leaves (KeepsOthers program) (iterate program) := by
  refine .bind (.of_eq leaves_getIp) fun ip => ?_
  split
  · refine .bind (.of_eq leaves_getIp) fun ip => ?_
    split
    · next instruction hfetch =>
        have hmem := List.mem_of_getElem? hfetch
        exact .bind ((leaves_executeInstruction program instruction).mono
          fun _ _ => .of_frame hmem) fun _ => .pure true
    · exact .throw _
  · exact .pure false

/-! ## Runs -/

theorem rel_executeProgram (h : program.addresses ⊆ addresses)
    (hsame : SameOn addresses start start' machine machine') (fuel : ℕ) :
    Option.Rel (Alike (SameOn addresses start start')) (executeProgram program fuel machine)
      (executeProgram program fuel machine') := by
  induction fuel generalizing machine machine' with
  | zero => exact .none
  | succ fuel ih =>
      have hiterate := lockstep_iterate h machine machine' hsame
      rw [executeProgram, executeProgram]
      generalize (iterate program).run machine = next at hiterate
      generalize (iterate program).run machine' = next' at hiterate
      cases hiterate with
      | @ok again _ _ hsame =>
          cases again with
          | true => exact ih hsame
          | false => exact .some (.ok hsame)
      | error hsame => exact .some (.error hsame)

/-! ## The other cells in a run -/

theorem KeepsOthers.step (hstep : Step program machine machine') :
    KeepsOthers program machine machine' :=
  (leaves_iterate program).within _ _ _ hstep

theorem KeepsOthers.reaches (h : Reaches program machine last) :
    KeepsOthers program machine last := by
  induction h with
  | refl => exact refl_of (KeepsOthers program) machine
  | tail _ hstep ih => exact trans_of (KeepsOthers program) ih (.step hstep)

/-- However a run ends, it has kept the others. -/
theorem KeepsOthers.executeProgram {fuel : ℕ}
    {result : EStateM.Result (Failure ExecutionError) (Machine T) Unit}
    (h : executeProgram program fuel machine = some result) :
    KeepsOthers program machine (final result) := by
  induction fuel generalizing machine with
  | zero => cases h
  | succ fuel ih =>
      have hiterate := leaves_iterate program machine
      rw [Stage04.executeProgram] at h
      cases hrun : (iterate program).run machine with
      | ok again next =>
          rw [hrun] at h hiterate
          cases again with
          | true => exact trans_of (KeepsOthers program) hiterate (ih h)
          | false =>
              cases h
              exact hiterate
      | error failure next =>
          rw [hrun] at h hiterate
          cases h
          exact hiterate

/-- **A run depends on the cells that the program names and on no others.**  On two CPUs that
agree on these and on the pointer it goes on as long, ends in the same way, prints the same
values and leaves the same in these cells.  And whether it goes on, ends, fails or panics, every
cell that is not at a destination has its content from the start. -/
theorem run_depends_on_named (program : Program T) {machine machine' : Machine T}
    (hpointer : machine.cpu.instructionPointer = machine'.cpu.instructionPointer)
    (hcells : ∀ address ∈ program.addresses,
      machine.cpu.getCell address = machine'.cpu.getCell address) :
    (∀ fuel, Option.Rel (Alike (SameOn program.addresses machine.printed machine'.printed))
        (executeProgram program fuel machine) (executeProgram program fuel machine')) ∧
      (∀ last, Reaches program machine last → KeepsOthers program machine last) ∧
      ∀ fuel result, executeProgram program fuel machine = some result →
        KeepsOthers program machine (final result) :=
  ⟨rel_executeProgram (Finset.Subset.refl _) (.start hpointer hcells),
    fun _ => .reaches, fun _ _ => .executeProgram⟩

/-- Prints a register and counts it down. -/
def countdown : Program UInt8 where
  instructions :=
    [.print (.register 0), .sub (.register 0) (.constant 1),
      .jumpIfNotZero (.register 0) "again".toList]
  labels := Finmap.singleton "again".toList 0

/-- The first of two CPUs has printed before and has more cells. -/
theorem run_depends_on_named_countdown :
    ∃ last, executeProgram countdown 9 ⟨⟨[.defined 2, .defined 5], [.undefined], 0⟩, [9]⟩ =
      some (.ok () last) ∧ last.printed = [9, 2, 1] ∧
      last.cpu.contents (.register 1) = some (.defined 5) := by
  obtain ⟨hboth, -, hkept⟩ := @run_depends_on_named _ _ countdown
    ⟨⟨[.defined 2, .defined 5], [.undefined], 0⟩, [9]⟩ ⟨⟨[.defined 2], [], 0⟩, []⟩ rfl (by decide)
  replace hboth := hboth 9
  replace hkept := hkept 9
  rw [show executeProgram countdown 9 ⟨⟨[.defined 2], [], 0⟩, []⟩ =
    some (.ok () ⟨⟨[.defined 0], [], 3⟩, [2, 1]⟩) from rfl] at hboth
  generalize executeProgram countdown 9 _ = first at hboth hkept ⊢
  cases hboth with
  | some halike =>
      cases halike with
      | ok hsame =>
          obtain ⟨news, hnews, hnews'⟩ := hsame.printed
          obtain rfl : [2, 1] = news := hnews'
          exact ⟨_, rfl, hnews, (hkept _ rfl).contents (.register 1) (by decide)⟩

end Stage04

end RustCourse.Assembly
