import RustCourse.Assembly.Extension
import RustCourse.Assembly.Overflow

/-!
# Two programs one after the other

A run of stage 04 starts where the instruction pointer of the CPU is, and the run before it
has left the pointer behind its last instruction.  So if a program of `n` instructions has
been executed, the next one is executed without its first `n` instructions (`runs_extend`),
where the concatenation executes them all.  Stage 03 has no pointer to start from, and says
here what a program without labels and jumps does from its first instruction on.

## Strategy

Programs without labels and jumps are those of stage 03, so a run of stage 04 is a fold over
the instructions behind the pointer (`runs_extend`).  Two executions in a row are then the
execution of the first list and of a `drop` of the second, and the concatenation that of an
append.  They agree if the instructions that are dropped make no difference there
(`Dispensable`).
-/

namespace RustCourse.Assembly

open Stage04

variable {T : Type}

/-! ## Programs without labels and jumps -/

/-- No instruction of the program goes anywhere but to the next one. -/
structure Straight (program : Stage04.Program T) : Prop where
  labelFree : program.labels = ∅
  jumpFree : ∀ src label, .jumpIfNotZero src label ∉ program.instructions

/-- The concatenation of two programs without labels. -/
def Stage04.Program.concat (p q : Stage04.Program T) : Stage04.Program T where
  instructions := p.instructions ++ q.instructions
  labels := ∅

/-- An instruction of stage 04 as one of stage 03. -/
def restrict : Stage04.Instruction T → Option (Stage03.Instruction T)
  | .set dest src => some (.set dest src)
  | .print expr => some (.print expr)
  | .add dest src => some (.add dest src)
  | .sub dest src => some (.sub dest src)
  | .jumpIfNotZero _ _ => none

/-- The same instructions as a program of stage 03. -/
def restrictProgram (program : Stage04.Program T) : Stage03.Program T where
  instructions := program.instructions.filterMap restrict

theorem restrict_extend (instruction : Stage03.Instruction T) :
    restrict (extend instruction) = some instruction := by
  cases instruction <;> rfl

private theorem restrictProgram_extendProgram (program : Stage03.Program T) :
    restrictProgram (extendProgram program) = program := by
  simp [restrictProgram, extendProgram, List.filterMap_map, restrict_extend]

/-- A program without labels and jumps is one of stage 03. -/
theorem Straight.exists_extend {program : Stage04.Program T} (h : Straight program) :
    ∃ program', program = extendProgram program' := by
  obtain ⟨instructions, labels⟩ := program
  obtain ⟨rfl, hjump⟩ := h
  suffices hall : ∃ is : List (Stage03.Instruction T), instructions = is.map extend by
    obtain ⟨is, rfl⟩ := hall
    exact ⟨⟨is⟩, rfl⟩
  induction instructions with
  | nil => exact ⟨[], rfl⟩
  | cons instruction instructions ih =>
      obtain ⟨is, rfl⟩ := ih fun src label hmem => hjump src label (List.mem_cons_of_mem _ hmem)
      cases instruction with
      | set dest src => exact ⟨.set dest src :: is, rfl⟩
      | print expr => exact ⟨.print expr :: is, rfl⟩
      | add dest src => exact ⟨.add dest src :: is, rfl⟩
      | sub dest src => exact ⟨.sub dest src :: is, rfl⟩
      | jumpIfNotZero src label => exact absurd List.mem_cons_self (hjump src label)

/-! ## Results up to the pointer -/

/-- The registers, the memory, what has been printed and the result, without the pointer. -/
def observe {E : Type} :
    EStateM.Result (Failure E) (Machine T) Unit → EStateM.Result (Failure E) (Machine T) Unit
  | .ok _ machine => .ok () (pointTo 0 machine)
  | .error failure machine => .error failure (pointTo 0 machine)

@[simp] theorem pointTo_pointTo (ip ip' : ℕ) (machine : Machine T) :
    pointTo ip (pointTo ip' machine) = pointTo ip machine := rfl

private theorem extendFailure_injective : Function.Injective extendFailure := by
  intro failure failure' h
  cases failure with
  | error e =>
      cases failure' with
      | error e' => cases e <;> cases e' <;> cases h <;> rfl
      | overflow => exact nomatch h
      | indexOutOfBounds => exact nomatch h
  | overflow => cases failure' <;> first | rfl | exact nomatch h
  | indexOutOfBounds => cases failure' <;> first | rfl | exact nomatch h

theorem SameEnd.observe_iff
    {x x' : EStateM.Result (Failure Stage03.ExecutionError) (Machine T) Unit}
    {y y' : Outcome T Unit} (h : SameEnd x y) (h' : SameEnd x' y') :
    observe y = observe y' ↔ observe x = observe x' := by
  cases h with
  | ok machine ip =>
      cases h' with
      | ok machine' ip' => simp [observe]
      | error failure' machine' ip' => simp [observe]
  | error failure machine ip =>
      cases h' with
      | ok machine' ip' => simp [observe]
      | error failure' machine' ip' => simp [observe, extendFailure_injective.eq_iff]

/-! ## Runs -/

variable [Stage04.Value T] {p q : Stage04.Program T} {machine machine₁ : Machine T}

/-- A program without labels that ends with an `Ok` leaves the pointer behind it. -/
theorem pointer_of_runs {program : Stage04.Program T} (hlabels : program.labels = ∅)
    (hip : machine.cpu.instructionPointer ≤ program.instructions.length)
    (h : Runs program machine (.ok () machine₁)) :
    machine₁.cpu.instructionPointer = program.instructions.length := by
  obtain ⟨last, hreaches, hstops⟩ := runs_iff.mp h
  have hle := pointer_le_of_reaches (fun label n hlabel => by
    rw [Stage04.Program.resolveLabel, hlabels, Finmap.lookup_empty] at hlabel
    cases hlabel) hip hreaches
  cases hfetch : program.instructions[last.cpu.instructionPointer]? with
  | none =>
      have hend := List.getElem?_eq_none_iff.mp hfetch
      rw [iterate_run_end hend] at hstops
      cases hstops
      exact Nat.le_antisymm hle hend
  | some instruction =>
      -- an iteration that executes an instruction is not the last one
      rw [iterate_run hfetch] at hstops
      cases hrun : (executeInstruction program instruction).run last with
      | ok _ next =>
          rw [hrun] at hstops
          cases hstops
      | error failure next =>
          rw [hrun] at hstops
          cases hstops

/-- **A run from anywhere** does what stage 03 does with the instructions from there on. -/
theorem runs_extend {program : Stage03.Program T}
    (hlength : program.instructions.length < 2 ^ 64) (ip : ℕ) (machine : Machine T) :
    ∃ outcome, Runs (extendProgram program) (pointTo ip machine) outcome ∧
      SameEnd ((Stage03.executeProgram ⟨program.instructions.drop ip⟩).run machine) outcome := by
  by_cases hip : ip ≤ program.instructions.length
  · have hsplit := (List.take_append_drop ip program.instructions).symm
    obtain ⟨outcome, hexecute, hsame⟩ := executeProgram_extend hlength hsplit
      (Nat.lt_succ_self _) machine
    rw [List.length_take_of_le hip] at hexecute
    exact ⟨outcome, ⟨_, hexecute⟩, hsame⟩
  · rw [List.drop_eq_nil_of_le (Nat.le_of_not_le hip)]
    refine ⟨.ok () (pointTo ip machine), Stops.runs ?_, .ok machine ip⟩
    rw [iterate_run_end (by simpa [extendProgram, pointTo] using Nat.le_of_not_le hip)]
    exact .ok _

/-! ## Composition -/

/-- If `p` succeeds, `q` behind it does what `q` does at the end of the concatenation. -/
def Composes (p q : Stage04.Program T) (machine : Machine T) : Prop :=
  ∀ machine₁, Runs p machine (.ok () machine₁) →
    ∃ outcome outcome', Runs q machine₁ outcome ∧ Runs (p.concat q) machine outcome' ∧
      observe outcome = observe outcome'

/-- The first `n` instructions make no difference. -/
def Dispensable (n : ℕ) (program : Stage03.Program T) (machine : Machine T) : Prop :=
  observe ((Stage03.executeProgram ⟨program.instructions.drop n⟩).run machine) =
    observe ((Stage03.executeProgram program).run machine)

private theorem dispensable_zero (program : Stage03.Program T) (machine : Machine T) :
    Dispensable 0 program machine := rfl

private theorem dispensable_nil {program : Stage03.Program T} (h : program.instructions = [])
    (n : ℕ) (machine : Machine T) : Dispensable n program machine := by
  obtain ⟨instructions⟩ := program
  subst h
  rw [Dispensable, List.drop_nil]

/-- In stage 03 programs compose. -/
theorem executeProgram_append {p q : Stage03.Program T}
    (h : (Stage03.executeProgram p).run machine = .ok () machine₁) :
    (Stage03.executeProgram ⟨p.instructions ++ q.instructions⟩).run machine =
      (Stage03.executeProgram q).run machine₁ := by
  rw [Stage03.executeProgram, List.forM_eq_forM] at h
  rw [Stage03.executeProgram, List.forM_eq_forM, List.forM_append, EStateM.run_bind, h]
  rfl

/-- What is left of `p` when it succeeds. -/
theorem runs_ok_iff {p : Stage03.Program T} (hlength : p.instructions.length < 2 ^ 64)
    (hip : machine.cpu.instructionPointer = 0) :
    Runs (extendProgram p) machine (.ok () machine₁) ↔ ∃ machine₂,
      (Stage03.executeProgram p).run machine = .ok () machine₂ ∧
        machine₁ = pointTo p.instructions.length machine₂ := by
  obtain ⟨outcome, hruns, hsame⟩ := runs_extend hlength 0 machine
  have hstart : pointTo 0 machine = machine := by
    rw [← hip]
    rfl
  rw [hstart] at hruns
  rw [List.drop_zero] at hsame
  constructor
  · intro h
    obtain rfl := hruns.unique h
    have hend := pointer_of_runs rfl (by simp [hip]) h
    generalize (Stage03.executeProgram p).run machine = result at hsame
    cases hsame with
    | ok machine₂ ip =>
        refine ⟨machine₂, rfl, ?_⟩
        rw [← List.length_map (f := extend)]
        exact congrArg (pointTo · machine₂) hend
  · rintro ⟨machine₂, hp, rfl⟩
    rw [hp] at hsame
    cases hsame with
    | ok _ ip =>
        have hend := pointer_of_runs rfl (by simp [hip]) hruns
        rw [← List.length_map (f := extend)]
        rw [show ip = _ from hend] at hruns
        exact hruns

/-! ## A concatenation of straight programs -/

omit [Stage04.Value T] in
theorem concat_extend (p q : Stage03.Program T) :
    (extendProgram p).concat (extendProgram q) =
      extendProgram ⟨p.instructions ++ q.instructions⟩ := by
  simp [Stage04.Program.concat, extendProgram]

/-- The two ways to execute `q` behind `p`, once `p` has succeeded. -/
theorem exists_runs {p q : Stage03.Program T}
    (hlength : p.instructions.length + q.instructions.length < 2 ^ 64)
    (hip : machine.cpu.instructionPointer = 0)
    (hp : (Stage03.executeProgram p).run machine = .ok () machine₁) :
    ∃ outcome outcome', Runs (extendProgram q) (pointTo p.instructions.length machine₁) outcome ∧
      Runs ((extendProgram p).concat (extendProgram q)) machine outcome' ∧
      (observe outcome = observe outcome' ↔ Dispensable p.instructions.length q machine₁) := by
  obtain ⟨outcome, hruns, hsame⟩ := runs_extend
    (show q.instructions.length < 2 ^ 64 by omega) p.instructions.length machine₁
  have hboth : (p.instructions ++ q.instructions).length < 2 ^ 64 := by
    rwa [List.length_append]
  obtain ⟨outcome', hruns', hsame'⟩ := runs_extend hboth 0 machine
  have hstart : pointTo 0 machine = machine := by
    rw [← hip]
    rfl
  rw [hstart] at hruns'
  rw [List.drop_zero, executeProgram_append hp] at hsame'
  refine ⟨outcome, outcome', hruns, ?_, hsame.observe_iff hsame'⟩
  rw [concat_extend]
  exact hruns'

/-- **Programs compose, exactly if as many instructions of the second as the first has make no
difference**; so they do if one of the two is empty. -/
theorem composes_iff (hp : Straight p) (hq : Straight q)
    (hlength : p.instructions.length + q.instructions.length < 2 ^ 64)
    (hip : machine.cpu.instructionPointer = 0) :
    (Composes p q machine ↔ ∀ machine₁,
      (Stage03.executeProgram (restrictProgram p)).run machine = .ok () machine₁ →
        Dispensable p.instructions.length (restrictProgram q) machine₁) ∧
      (p.instructions = [] ∨ q.instructions = [] → Composes p q machine) := by
  obtain ⟨p, rfl⟩ := hp.exists_extend
  obtain ⟨q, rfl⟩ := hq.exists_extend
  have hmap (program : Stage03.Program T) :
      (extendProgram program).instructions.length = program.instructions.length :=
    List.length_map _
  rw [hmap, hmap] at hlength
  -- of programs of stage 03, the two ways to execute `q` can be compared
  have hiff : Composes (extendProgram p) (extendProgram q) machine ↔ ∀ machine₁,
      (Stage03.executeProgram p).run machine = .ok () machine₁ →
        Dispensable p.instructions.length q machine₁ := by
    have hends (machine₁ : Machine T) : Runs (extendProgram p) machine (.ok () machine₁) ↔ _ :=
      runs_ok_iff (show p.instructions.length < 2 ^ 64 by omega) hip
    constructor
    · intro h machine₁ hp₁
      obtain ⟨outcome, outcome', hruns, hruns', hiff⟩ := exists_runs hlength hip hp₁
      obtain ⟨r, r', hr, hr', hsame⟩ := h _ ((hends _).mpr ⟨machine₁, hp₁, rfl⟩)
      rw [hr.unique hruns, hr'.unique hruns'] at hsame
      exact hiff.mp hsame
    · intro h machine₁ hruns_p
      obtain ⟨machine₂, hp₂, rfl⟩ := (hends _).mp hruns_p
      obtain ⟨outcome, outcome', hruns, hruns', hiff⟩ := exists_runs hlength hip hp₂
      exact ⟨outcome, outcome', hruns, hruns', hiff.mpr (h machine₂ hp₂)⟩
  rw [hmap, restrictProgram_extendProgram, restrictProgram_extendProgram, hiff]
  -- if `p` is empty nothing is left out, and if `q` is there is nothing to leave out
  refine ⟨Iff.rfl, fun hempty machine₁ _ => ?_⟩
  rcases hempty with hnil | hnil
  · rw [extendProgram, List.map_eq_nil_iff] at hnil
    rw [hnil]
    exact dispensable_zero q machine₁
  · exact dispensable_nil (List.map_eq_nil_iff.mp hnil) _ machine₁

/-- A `MOV` and, behind it, two more of which the second makes the first superfluous. -/
theorem composes_iff_overwritten :
    Composes (T := UInt8) ⟨[.set (.register 0) (.constant 1)], ∅⟩
      ⟨[.set (.register 0) (.constant 2), .set (.register 0) (.constant 3)], ∅⟩
      ⟨⟨[.undefined], [], 0⟩, []⟩ := by
  refine (composes_iff ⟨rfl, by simp⟩ ⟨rfl, by simp⟩ (by decide) rfl).1.mpr ?_
  rintro machine₁ ⟨⟩
  rfl

/-- The only instruction of the second program is not executed. -/
theorem not_composes_print :
    ¬ Composes (T := UInt8) ⟨[.set (.register 0) (.constant 1)], ∅⟩
      ⟨[.print (.register 0)], ∅⟩ ⟨⟨[.undefined], [], 0⟩, []⟩ := by
  intro h
  obtain ⟨outcome, outcome', hruns, hruns', hsame⟩ :=
    h ⟨⟨[.defined 1], [], 1⟩, []⟩ ⟨2, rfl⟩
  have hend : outcome = .ok () ⟨⟨[.defined 1], [], 1⟩, []⟩ := hruns.unique ⟨1, rfl⟩
  have hend' : outcome' = .ok () ⟨⟨[.defined 1], [], 2⟩, [1]⟩ := hruns'.unique ⟨3, rfl⟩
  rw [hend, hend'] at hsame
  exact nomatch hsame

end RustCourse.Assembly
