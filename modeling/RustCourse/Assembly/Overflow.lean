import RustCourse.Assembly.Atomicity

/-!
# Panics of the interpreter

A run of `execute_program` ends in the state in which an iteration is the last one
(`runs_iff`).  Over `u8` an iteration panics exactly if it is an `ADD` or a `SUB` whose
operands can be read and whose result is not a `u8`: the read of an index that the loop has
checked is in bounds, and so is the increment of the pointer.

## Strategy

`Runs` is executable with a number of iterations, and `Stops` says what the last iteration can
be; `runs_iff` connects the two, so that a property of all runs is one of all reachable states.
Then the effects are gone through once more, each with the condition under which it panics.
In a reachable state the index was checked by the loop, and only the arithmetic is left.
-/

namespace RustCourse.Assembly.Stage04

variable {T : Type}

/-! ## Outcomes -/

/-- What an execution ends with. -/
abbrev Outcome (T α : Type) := EStateM.Result (Failure ExecutionError) (Machine T) α

/-- Neither an `Ok` nor an `Err`. -/
def Panics {α : Type} : Outcome T α → Prop
  | .ok _ _ => False
  | .error failure _ => ¬ IsErr failure

section Runs

variable [Value T] {program : Program T} {machine machine' : Machine T}

/-! ## Runs to the end -/

/-- The loop of `execute_program` ends, and with this result. -/
def Runs (program : Program T) (machine : Machine T) (outcome : Outcome T Unit) : Prop :=
  ∃ fuel, executeProgram program fuel machine = some outcome

/-- An iteration that is the last one, and what the loop ends with. -/
inductive Stops : Outcome T Bool → Outcome T Unit → Prop
  | ok (machine : Machine T) : Stops (.ok false machine) (.ok () machine)
  | error (failure : Failure ExecutionError) (machine : Machine T) :
      Stops (.error failure machine) (.error failure machine)

theorem Stops.runs {outcome : Outcome T Unit} (h : Stops ((iterate program).run machine) outcome) :
    Runs program machine outcome := by
  refine ⟨1, ?_⟩
  rw [executeProgram]
  generalize (iterate program).run machine = last at h
  cases h <;> rfl

theorem Step.runs {outcome : Outcome T Unit} (h : Step program machine machine')
    (hruns : Runs program machine' outcome) : Runs program machine outcome := by
  obtain ⟨fuel, hfuel⟩ := hruns
  rw [Step] at h
  exact ⟨fuel + 1, by simp only [executeProgram, h, hfuel]⟩

/-- **A run of the loop**: it reaches a state whose iteration is the last one. -/
theorem runs_iff {outcome : Outcome T Unit} :
    Runs program machine outcome ↔
      ∃ last, Reaches program machine last ∧ Stops ((iterate program).run last) outcome := by
  constructor
  · rintro ⟨fuel, hfuel⟩
    induction fuel generalizing machine with
    | zero => exact nomatch hfuel
    | succ fuel ih =>
        rw [executeProgram] at hfuel
        cases hiterate : (iterate program).run machine with
        | ok again next =>
            rw [hiterate] at hfuel
            cases again with
            | true =>
                obtain ⟨last, hreaches, hstops⟩ := ih hfuel
                exact ⟨last, .head hiterate hreaches, hstops⟩
            | false =>
                cases hfuel
                exact ⟨machine, .refl, hiterate ▸ .ok next⟩
        | error failure next =>
            rw [hiterate] at hfuel
            cases hfuel
            exact ⟨machine, .refl, hiterate ▸ .error failure next⟩
  · rintro ⟨last, hreaches, hstops⟩
    induction hreaches using Relation.ReflTransGen.head_induction_on with
    | refl => exact hstops.runs
    | head hstep _ ih => exact Step.runs hstep ih

/-- More fuel than is needed changes nothing. -/
theorem executeProgram_add {outcome : Outcome T Unit} {fuel : ℕ}
    (h : executeProgram program fuel machine = some outcome) (more : ℕ) :
    executeProgram program (fuel + more) machine = some outcome := by
  induction fuel generalizing machine with
  | zero => exact nomatch h
  | succ fuel ih =>
      rw [Nat.succ_add]
      rw [executeProgram] at h ⊢
      cases hiterate : (iterate program).run machine with
      | ok again next =>
          rw [hiterate] at h
          cases again with
          | true => exact ih h
          | false => exact h
      | error failure next =>
          rw [hiterate] at h
          exact h

theorem Runs.unique {outcome outcome' : Outcome T Unit} (h : Runs program machine outcome)
    (h' : Runs program machine outcome') : outcome = outcome' := by
  obtain ⟨fuel, hfuel⟩ := h
  obtain ⟨fuel', hfuel'⟩ := h'
  have hboth := executeProgram_add hfuel fuel'
  rw [Nat.add_comm, executeProgram_add hfuel' fuel] at hboth
  exact (Option.some.inj hboth).symm

/-- No iteration of a run panics, exactly if no result of a run is a panic. -/
theorem forall_reaches_iff_forall_runs :
    (∀ last, Reaches program machine last → ¬ Panics ((iterate program).run last)) ↔
      ∀ outcome, Runs program machine outcome → ¬ Panics outcome := by
  constructor
  · intro h outcome hruns hpanics
    obtain ⟨last, hreaches, hstops⟩ := runs_iff.mp hruns
    refine h last hreaches ?_
    generalize (iterate program).run last = result at hstops
    cases hstops with
    | ok machine => exact hpanics
    | error failure machine => exact hpanics
  · intro h last hreaches hpanics
    cases hiterate : (iterate program).run last with
    | ok again next =>
        rw [hiterate] at hpanics
        exact hpanics
    | error failure next =>
        rw [hiterate] at hpanics
        have hruns : Runs program machine (.error failure next) :=
          runs_iff.mpr ⟨last, hreaches, hiterate ▸ .error failure next⟩
        exact h _ hruns hpanics

end Runs

/-! ## Which effects panic -/

section Effects

variable {machine : Machine T} {α β : Type}

theorem panics_read {expr : ReadableExpr T} {f : T → Exec ExecutionError T β} :
    Panics ((Exec.read expr >>= f).run machine) ↔
      ∃ value, machine.cpu.read expr = .ok value ∧ Panics ((f value).run machine) := by
  rw [EStateM.run_bind, Exec.run_read]
  cases machine.cpu.read expr with
  | ok value => simp
  | error e => simp [Panics, IsErr]

theorem panics_checked {result : Option α} {f : α → Exec ExecutionError T β} :
    Panics ((Exec.checked result >>= f).run machine) ↔
      result = none ∨ ∃ value, result = some value ∧ Panics ((f value).run machine) := by
  rw [EStateM.run_bind, Exec.run_checked]
  cases result with
  | some value => simp
  | none => simp [Panics, IsErr]

theorem not_panics_write {dest : WritableExpr} {value : T} :
    ¬ Panics ((do Exec.write dest value; return none :
      Exec ExecutionError T (Option ℕ)).run machine) := by
  rw [EStateM.run_bind, Exec.run_write]
  cases machine.cpu.write dest value with
  | ok cpu => exact id
  | error e => exact fun h => h trivial

end Effects

/-! ## An addition or a subtraction of `u8`s -/

/-- The operands can be read and the result is not a `u8`. -/
inductive Overflows (cpu : Cpu UInt8) : Instruction UInt8 → Prop
  | add {dest : WritableExpr} {src : ReadableExpr UInt8} {a b : UInt8} :
      cpu.read src = .ok a → cpu.read dest.asRead = .ok b → 2 ^ 8 ≤ a.toNat + b.toNat →
      Overflows cpu (.add dest src)
  | sub {dest : WritableExpr} {src : ReadableExpr UInt8} {a b : UInt8} :
      cpu.read src = .ok a → cpu.read dest.asRead = .ok b → b.toNat < a.toNat →
      Overflows cpu (.sub dest src)

private theorem add_eq_none {a b : UInt8} : Value.add a b = none ↔ 2 ^ 8 ≤ a.toNat + b.toNat := by
  simp only [Value.add]
  split
  · next hlt => exact ⟨nofun, fun hle => absurd hlt (Nat.not_lt.mpr hle)⟩
  · next hle => exact ⟨fun _ => Nat.not_lt.mp hle, fun _ => rfl⟩

private theorem sub_eq_none {a b : UInt8} : Value.sub b a = none ↔ b.toNat < a.toNat := by
  simp only [Value.sub, UInt8.le_iff_toNat_le]
  split
  · next hle => exact ⟨nofun, fun hlt => absurd hle (Nat.not_le.mpr hlt)⟩
  · next hlt => exact ⟨fun _ => Nat.not_le.mp hlt, fun _ => rfl⟩

section Bytes

variable {program : Program UInt8} {instruction : Instruction UInt8} {machine : Machine UInt8}

theorem panics_ipTarget :
    Panics ((ipTarget program instruction).run machine) ↔ Overflows machine.cpu instruction := by
  -- reads, writes and labels fail with an `Err`, so only `checked` is left
  cases instruction with
  | set dest src =>
      refine ⟨fun h => ?_, nofun⟩
      obtain ⟨value, -, h⟩ := panics_read.mp h
      exact absurd h not_panics_write
  | add dest src =>
      constructor
      · intro h
        obtain ⟨a, ha, h⟩ := panics_read.mp h
        obtain ⟨b, hb, h⟩ := panics_read.mp h
        rcases panics_checked.mp h with hnone | ⟨result, -, h⟩
        · exact .add ha hb (add_eq_none.mp hnone)
        · exact absurd h not_panics_write
      · rintro (⟨ha, hb, hle⟩ | _)
        refine panics_read.mpr ⟨_, ha, panics_read.mpr ⟨_, hb, ?_⟩⟩
        exact panics_checked.mpr (.inl (add_eq_none.mpr hle))
  | sub dest src =>
      constructor
      · intro h
        obtain ⟨a, ha, h⟩ := panics_read.mp h
        obtain ⟨b, hb, h⟩ := panics_read.mp h
        rcases panics_checked.mp h with hnone | ⟨result, -, h⟩
        · exact .sub ha hb (sub_eq_none.mp hnone)
        · exact absurd h not_panics_write
      · rintro (_ | ⟨ha, hb, hlt⟩)
        refine panics_read.mpr ⟨_, ha, panics_read.mpr ⟨_, hb, ?_⟩⟩
        exact panics_checked.mpr (.inl (sub_eq_none.mpr hlt))
  | print expr =>
      refine ⟨fun h => ?_, nofun⟩
      obtain ⟨value, -, h⟩ := panics_read.mp h
      exact h.elim
  | jumpIfNotZero src label =>
      refine ⟨fun h => ?_, nofun⟩
      obtain ⟨value, -, h⟩ := panics_read.mp h
      split at h
      · split at h
        · exact h.elim
        · exact absurd trivial h
      · exact h.elim

/-- The increment of the pointer does not panic. -/
theorem panics_executeInstruction (hip : machine.cpu.instructionPointer + 1 < 2 ^ 64) :
    Panics ((executeInstruction program instruction).run machine) ↔
      Overflows machine.cpu instruction := by
  rw [← @panics_ipTarget program, executeInstruction, EStateM.run_bind]
  have htargets := targets_ipTarget program instruction machine
  cases htarget : (ipTarget program instruction).run machine with
  | error failure machine₁ => exact Iff.rfl
  | ok target machine₁ =>
      rw [htarget] at htargets
      cases target with
      | some index => exact Iff.rfl
      | none => simp [htargets.1, increment_of_lt hip, Panics]

theorem panics_iterate (hlength : program.instructions.length < 2 ^ 64) :
    Panics ((iterate program).run machine) ↔ ∃ instruction,
      program.instructions[machine.cpu.instructionPointer]? = some instruction ∧
        Overflows machine.cpu instruction := by
  cases hfetch : program.instructions[machine.cpu.instructionPointer]? with
  | none =>
      rw [iterate_run_end (List.getElem?_eq_none_iff.mp hfetch)]
      exact ⟨nofun, nofun⟩
  | some instruction =>
      have hlt := (List.getElem?_eq_some_iff.mp hfetch).1
      rw [iterate_run hfetch]
      simp only [Option.some.injEq, exists_eq_left']
      rw [← @panics_executeInstruction program _ _ (by omega)]
      cases (executeInstruction program instruction).run machine with
      | ok _ machine₁ => exact Iff.rfl
      | error failure machine₁ => cases failure <;> exact Iff.rfl

end Bytes

/-! ## Panics of a whole run -/

/-- **No iteration of a run panics, exactly if no `ADD` or `SUB` of the run leaves `u8`.**  The
number of instructions is the length of a `Vec`, so it fits in 64 bits. -/
theorem no_panic_iff_no_overflow (program : Program UInt8) (machine : Machine UInt8)
    (hlength : program.instructions.length < 2 ^ 64) :
    (∀ last, Reaches program machine last → ¬ Panics ((iterate program).run last)) ↔
      ∀ last instruction, Reaches program machine last →
        program.instructions[last.cpu.instructionPointer]? = some instruction →
        ¬ Overflows last.cpu instruction := by
  simp only [panics_iterate hlength, not_exists, not_and]
  exact ⟨fun h last i hreaches => h last hreaches i, fun h last hreaches i => h last i hreaches⟩

/-- The addition is in bounds the first time and overflows the second time. -/
theorem no_panic_iff_no_overflow_loop : ∃ program : Program UInt8,
    parseProgram "a:\nADD R0, 200\nJNZ 1, a".toList = .ok program ∧
      ¬ ∀ last, Reaches program ⟨⟨[.defined 0], [], 0⟩, []⟩ last →
        ¬ Panics ((iterate program).run last) := by
  refine ⟨_, rfl, fun h => ?_⟩
  have hbounded := (no_panic_iff_no_overflow _ _ (by decide)).mp h
  exact hbounded ⟨⟨[.defined 200], [], 0⟩, []⟩ _ (.head rfl (.head rfl .refl)) rfl
    (.add rfl rfl (by decide))

/-- The text of two lines is accepted, and its run ends in a panic. -/
theorem addition_overflows : ∃ program : Program UInt8,
    parseProgram "MOV R0, 255\nADD R0, 1".toList = .ok program ∧
      Runs program ⟨⟨[.undefined], [], 0⟩, []⟩ (.error .overflow ⟨⟨[.defined 255], [], 1⟩, []⟩) :=
  ⟨_, rfl, 2, rfl⟩

end RustCourse.Assembly.Stage04
