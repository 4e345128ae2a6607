import RustCourse.Assembly.Grammar
import RustCourse.Assembly.Locality

/-!
# Errors of a whole run

`main` parses a text, builds a CPU whose cells are all defined, and executes the program on it.
A cell that is defined stays so, whatever is executed (`Defines`), and the operands that the
parser makes are constants and registers.  So there are two errors that can come out of it in
the end: a register that the CPU does not have, and a jump to a label that the text does not
define (`errors_of_main`).

## Strategy

`Defines` is an invariant of every effect, so it is one of runs.  A read fails then only at an
index out of bounds, and a write only there as well; the other failures of an iteration are
listed in `Assembly/Labels`.  What is left is a fact about parsing: a text can name registers
and no cells of the memory (`register_of_denotes`).
-/

namespace RustCourse.Assembly

open Str Fallible Effects

/-! ## `CpuBuilder` -/

/-- The sizes of the CPU to build. -/
structure CpuBuilder where
  registerCount : ℕ
  memorySize : ℕ

namespace CpuBuilder

variable {T : Type}

/-- `default` for a type with this default value. -/
def default (builder : CpuBuilder) (value : T) : Cpu T where
  registers := List.replicate builder.registerCount (.defined value)
  memory := List.replicate builder.memorySize (.defined value)
  instructionPointer := 0

private theorem getCell_default {builder : CpuBuilder} {value : T} {address : AddressableExpr}
    {cell : MemoryCell T} (h : (builder.default value).getCell address = some cell) :
    cell = .defined value := by
  cases address <;> exact List.eq_of_mem_replicate (List.mem_of_getElem? h)

/-- The registers of the CPU are the first ones. -/
theorem getCell_default_eq_none {builder : CpuBuilder} {value : T} {reg : UInt8} :
    (builder.default value).getCell (.register reg) = none ↔ builder.registerCount ≤ reg.toNat := by
  simp [Cpu.getCell, default]

end CpuBuilder

/-! ## Failing reads and writes -/

namespace Cpu

variable {T : Type} {cpu : Cpu T}

theorem read_eq_error {expr : ReadableExpr T} {e : ReadError} (h : cpu.read expr = .error e) :
    ∃ address, expr = .addressable address ∧
      (cpu.getCell address = none ∧ e = .outOfBounds address ∨
        cpu.getCell address = some .undefined ∧ e = .undefined address) := by
  cases expr with
  | constant value => cases h
  | addressable address =>
      refine ⟨address, rfl, ?_⟩
      rw [read] at h
      split at h
      · next hcell =>
          cases h
          exact .inl ⟨hcell, rfl⟩
      · cases h
      · next hcell =>
          cases h
          exact .inr ⟨hcell, rfl⟩

theorem write_eq_error {dest : WritableExpr} {value : T} {e : WriteError}
    (h : cpu.write dest value = .error e) :
    cpu.getCell dest.address = none ∧ e = .outOfBounds dest.address := by
  obtain ⟨address⟩ := dest
  rw [write] at h
  split at h
  · next hcell =>
      cases h
      exact ⟨hcell, rfl⟩
  · cases h

end Cpu

namespace Stage04

variable {T : Type}

/-! ## Defined cells stay defined -/

/-- A cell that is undefined has been so before. -/
def Defines (machine machine' : Machine T) : Prop :=
  ∀ address, machine'.cpu.getCell address = some .undefined →
    machine.cpu.getCell address = some .undefined

instance : Std.Refl (Defines (T := T)) where
  refl _ _ := id

instance : IsTrans (Machine T) Defines where
  trans _ _ _ h h' address := h address ∘ h' address

theorem within_defines_write (dest : WritableExpr) (value : T) :
    Within Defines (Exec.write dest value : Exec ExecutionError T Unit) := by
  obtain ⟨address⟩ := dest
  intro machine _ machine' h other
  rw [Exec.run_write, Cpu.write] at h
  cases hcell : machine.cpu.getCell address with
  | none => simp [hcell] at h
  | some cell =>
      simp only [hcell] at h
      cases h
      intro hundefined
      have hundefined :
          (machine.cpu.setCell (.defined value) address).getCell other = _ := hundefined
      by_cases hother : other = address
      · rw [hother, Cpu.getCell_setCell_self (by rw [hcell]; rfl)] at hundefined
        cases hundefined
      · rwa [Cpu.getCell_setCell_ne hother] at hundefined

theorem within_defines_println (value : T) :
    Within Defines (Exec.println value : Exec ExecutionError T Unit) := by
  rintro machine _ machine' ⟨⟩ address
  exact id

theorem within_defines_setIp (ip : ℕ) :
    Within Defines (setIp ip : Exec ExecutionError T Unit) := by
  rintro machine _ machine' ⟨⟩ address
  have hsame : (machine.cpu.setIp ip).getCell address = machine.cpu.getCell address :=
    Cpu.getCell_setIp ..
  exact fun h => hsame.symm.trans h

variable [Value T] {program : Program T} {machine machine' last : Machine T}

theorem within_defines_executeInstruction (instruction : Instruction T) :
    Within Defines (executeInstruction program instruction) := by
  have htarget : Within Defines (ipTarget program instruction) := by
    cases instruction with
    | set dest src =>
        refine .bind (.of_eq (within_read src)) fun value => ?_
        exact .bind (within_defines_write dest value) fun _ => .pure none
    | add dest src | sub dest src =>
        refine .bind (.of_eq (within_read src)) fun srcVal => ?_
        refine .bind (.of_eq (within_read _)) fun destVal => ?_
        refine .bind (.of_eq (within_checked _)) fun result => ?_
        exact .bind (within_defines_write dest result) fun _ => .pure none
    | print expr =>
        refine .bind (.of_eq (within_read expr)) fun value => ?_
        exact .bind (within_defines_println value) fun _ => .pure none
    | jumpIfNotZero src label =>
        refine .bind (.of_eq (within_read src)) fun value => ?_
        split
        · split
          · exact .pure _
          · exact fun _ _ _ h => nomatch h
        · exact .pure none
  refine .bind htarget fun target => ?_
  cases target with
  | some ip => exact within_defines_setIp ip
  | none =>
      refine .bind (.of_eq leaves_getIp.within) fun ip => ?_
      exact .bind (.of_eq (within_checked _)) within_defines_setIp

theorem defines_of_step (hstep : Step program machine machine') : Defines machine machine' := by
  cases hfetch : program.instructions[machine.cpu.instructionPointer]? with
  | none =>
      rw [Step, iterate_run_end (List.getElem?_eq_none_iff.mp hfetch)] at hstep
      cases hstep
  | some instruction =>
      rw [Step, iterate_run hfetch] at hstep
      cases hrun : (executeInstruction program instruction).run machine with
      | error failure next =>
          rw [hrun] at hstep
          cases hstep
      | ok _ next =>
          rw [hrun] at hstep
          cases hstep
          exact within_defines_executeInstruction instruction _ _ _ hrun

theorem defines_of_reaches (h : Reaches program machine last) : Defines machine last := by
  induction h with
  | refl => exact refl_of Defines machine
  | tail _ hstep ih => exact trans_of Defines ih (defines_of_step hstep)

/-! ## Errors -/

/-- **What a run can fail with** if its cells are defined. -/
theorem errors_of_run {e : ExecutionError}
    (hdefined : ∀ address ∈ program.addresses, machine.cpu.getCell address ≠ some .undefined)
    (hruns : Runs program machine (.error (.error e) last)) :
    (∃ address ∈ program.addresses, machine.cpu.getCell address = none ∧
        (e = .read (.outOfBounds address) ∨ e = .write (.outOfBounds address))) ∨
      ∃ src label, .jumpIfNotZero src label ∈ program.instructions ∧
        program.resolveLabel label = none ∧ e = .invalidLabel label := by
  obtain ⟨before, hreaches, hstops⟩ := runs_iff.mp hruns
  -- no step adds or removes a cell
  have hnone : ∀ {address}, before.cpu.getCell address = none →
      machine.cpu.getCell address = none := by
    intro address h
    have hsome := ((KeepsOthers.reaches hreaches).getCell address).1
    rw [h, Option.isSome_none, eq_comm, Option.isSome_eq_false_iff,
      Option.isNone_iff_eq_none] at hsome
    exact hsome
  -- the last iteration fails, so it has fetched an instruction
  cases hfetch : program.instructions[before.cpu.instructionPointer]? with
  | none =>
      rw [iterate_run_end (List.getElem?_eq_none_iff.mp hfetch)] at hstops
      cases hstops
  | some instruction =>
      have hmem := List.mem_of_getElem? hfetch
      have hexecuted := executed_executeInstruction program instruction before
      rw [iterate_run hfetch] at hstops
      cases hrun : (executeInstruction program instruction).run before with
      | ok _ next =>
          rw [hrun] at hstops
          cases hstops
      | error failure next =>
          rw [hrun] at hstops hexecuted
          cases hstops
          obtain ⟨-, hfails⟩ := hexecuted
          cases hfails with
          | read hexpr hread =>
              left
              obtain ⟨address, rfl, hcell⟩ := Cpu.read_eq_error hread
              have haddress : address ∈ program.addresses := by
                refine Program.mem_addresses hmem (List.mem_append_left _ ?_)
                exact List.mem_filterMap.mpr ⟨_, hexpr, rfl⟩
              refine ⟨address, haddress, ?_⟩
              rcases hcell with ⟨hcell, rfl⟩ | ⟨hcell, -⟩
              · exact ⟨hnone hcell, .inl rfl⟩
              · -- the cell would have been undefined from the start
                exact absurd (defines_of_reaches hreaches address hcell) (hdefined address haddress)
          | write hdest hwrite =>
              left
              obtain ⟨hcell, rfl⟩ := Cpu.write_eq_error hwrite
              refine ⟨_, Program.mem_addresses hmem (List.mem_append_right _ ?_), hnone hcell,
                .inr rfl⟩
              rw [hdest]
              exact List.mem_singleton_self _
          | invalidLabel hinstruction _ _ hlabel =>
              right
              exact ⟨_, _, hinstruction ▸ hmem, hlabel, rfl⟩

/-! ## Texts -/

private theorem address_of_parseReadableExpr {s : Str} {expr : ReadableExpr T}
    (h : parseReadableExpr s = .ok expr) {address : AddressableExpr}
    (haddress : address ∈ expr.address?) : ∃ reg, address = .register reg := by
  unfold parseReadableExpr at h
  dsimp only at h
  split at h
  · cases h
    cases haddress
  · split at h
    · cases h
    · split at h
      · cases h
        cases haddress
        exact ⟨_, rfl⟩
      · cases h

/-- A text can name registers, and no cells of the memory. -/
theorem register_of_denotes {line : Str} {instruction : Instruction T}
    (h : Denotes line (.instruction instruction)) {address : AddressableExpr}
    (haddress : address ∈ instruction.addresses) : ∃ reg, address = .register reg := by
  have hdest : ∀ {d dest}, parseWritableExpr d = .ok dest →
      ∃ reg, dest.address = .register reg := by
    intro d dest hd
    obtain ⟨-, index, -, -, rfl⟩ := parseWritableExpr_eq_ok.mp hd
    exact ⟨index, rfl⟩
  have hsrc : ∀ {s} {expr : ReadableExpr T}, parseReadableExpr s = .ok expr →
      expr.address? = some address → ∃ reg, address = .register reg :=
    fun hs => address_of_parseReadableExpr hs
  have hasRead : ∀ dest : WritableExpr,
      (dest.asRead : ReadableExpr T).address? = some dest.address := fun ⟨_⟩ => rfl
  rcases List.mem_append.mp haddress with hread | hwrite
  -- an address that is named is read by an operand, or written
  · obtain ⟨expr, hexpr, hnamed⟩ := List.mem_filterMap.mp hread
    cases h with
    | set _ _ _ hs | print _ hs | jumpIfNotZero _ _ _ hs =>
        rw [List.mem_singleton.mp hexpr] at hnamed
        exact hsrc hs hnamed
    | add _ _ hd hs | sub _ _ hd hs =>
        rcases List.mem_cons.mp hexpr with rfl | hexpr
        · exact hsrc hs hnamed
        · rw [List.mem_singleton.mp hexpr, hasRead, Option.some.injEq] at hnamed
          exact hnamed ▸ hdest hd
  · obtain ⟨dest, hmem, rfl⟩ := List.mem_map.mp hwrite
    cases h with
    | set _ _ hd | add _ _ hd | sub _ _ hd =>
        rw [List.mem_singleton.mp hmem]
        exact hdest hd
    | print | jumpIfNotZero => exact absurd hmem (by simp [Instruction.dest])

theorem exists_denotes {ls : List Str} {items : List (Item T)}
    (h : List.Forall₂ Denotes ls items) {item : Item T} (hitem : item ∈ items) :
    ∃ line, Denotes line item := by
  induction h with
  | nil => cases hitem
  | cons hdenotes _ ih =>
      rcases List.mem_cons.mp hitem with rfl | hitem
      · exact ⟨_, hdenotes⟩
      · exact ih hitem

/-! ## The errors of `main` -/

/-- **Errors of `main`.**  A program from a text, on a CPU from `CpuBuilder::default`, can only
fail with an error because of a register that the CPU does not have or of a label that the text
does not define. -/
theorem errors_of_main {text : Str} {builder : CpuBuilder} {value : T} {e : ExecutionError}
    (hparse : parseProgram text = .ok program)
    (hruns : Runs program ⟨builder.default value, []⟩ (.error (.error e) last)) :
    (∃ reg, .register reg ∈ program.addresses ∧ builder.registerCount ≤ reg.toNat ∧
        (e = .read (.outOfBounds (.register reg)) ∨
          e = .write (.outOfBounds (.register reg)))) ∨
      ∃ src label, .jumpIfNotZero src label ∈ program.instructions ∧
        (∀ line ∈ lines text, ¬ DefinesLabel line label) ∧ e = .invalidLabel label := by
  -- the builder leaves no cell undefined
  have hdefined : ∀ address ∈ program.addresses,
      (builder.default value).getCell address ≠ some .undefined := by
    intro address _ hcell
    cases CpuBuilder.getCell_default hcell
  -- and the text names registers only
  have hregister : ∀ address ∈ program.addresses, ∃ reg, address = .register reg := by
    intro address haddress
    obtain ⟨items, hdenotes, -, rfl⟩ := parseProgram_eq_ok.mp hparse
    rw [Program.addresses, List.mem_toFinset, List.mem_flatMap] at haddress
    obtain ⟨instruction, hmem, haddress⟩ := haddress
    rw [instructions_foldl_append, List.nil_append, instructionsOf] at hmem
    obtain ⟨item, hitem, hinstruction⟩ := List.mem_filterMap.mp hmem
    obtain ⟨line, hline⟩ := exists_denotes hdenotes hitem
    cases item with
    | instruction i =>
        cases hinstruction
        exact register_of_denotes hline haddress
    | blank | label => cases hinstruction
  rcases errors_of_run hdefined hruns with
    ⟨address, haddress, hcell, he⟩ | ⟨src, label, hmem, hlabel, he⟩
  · left
    obtain ⟨reg, rfl⟩ := hregister address haddress
    exact ⟨reg, haddress, CpuBuilder.getCell_default_eq_none.mp hcell, he⟩
  · right
    refine ⟨src, label, hmem, fun line hline hdefines => ?_, he⟩
    obtain ⟨before, after, hlines⟩ := List.append_of_mem hline
    have hresolved := ((positions_parseProgram hparse).labels label _).mpr
      ⟨before, line, after, hlines, hdefines, rfl⟩
    have hnone := hlabel.symm.trans hresolved
    cases hnone

/-- The text adds to a register that a CPU with 16 of them does not have. -/
theorem errors_of_main_register : ∃ (program : Program UInt8) (reg : UInt8),
    parseProgram "MOV R0, 1\nADD R20, R0".toList = .ok program ∧
      .register reg ∈ program.addresses ∧ 16 ≤ reg.toNat := by
  have hparse : (parseProgram "MOV R0, 1\nADD R20, R0".toList :
      Except ParseFailure (Program UInt8)) = .ok ⟨[.set (.register 0) (.constant 1),
        .add (.register 20) (.register 0)], ∅⟩ := rfl
  have herror := @errors_of_main UInt8 _ _ _ _ ⟨16, 4⟩ 0 (.read (.outOfBounds (.register 20)))
    hparse ⟨2, rfl⟩
  rcases herror with ⟨reg, hnamed, hbound, -⟩ | ⟨src, label, -, -, he⟩
  · exact ⟨_, reg, hparse, hnamed, hbound⟩
  · cases he

end Stage04

end RustCourse.Assembly
