import Mathlib.Data.Fintype.BigOperators
import RustCourse.Assembly.Locality
import RustCourse.Lib.Halting

/-!
# When a program ends

A loop of stage 04 need not end, but over a finite type of values such as `u8` it can be told
when it does not.  What an iteration does depends on the pointer and on the cells that the
program names, of which it changes the destinations only; what has been printed plays no part.
So a program of `n` instructions with `d` destinations that has not ended by
`n * (|T| + 1) ^ d + 1` evaluations of the condition never will (`ends_within_bound`): to run
it that long is to decide whether it ends.

## Strategy

A view is the pointer together with the contents of the destinations; the other cells that the
program names keep what they had at the start (`Unchanged`).  Two states of a run with the same
view go the same way (`viewed`), and the rest is `Lib/Halting` with the iterations as its system.
The number of views is that of the positions of the pointer times that of the ways to fill the
destinations.
-/

namespace RustCourse.Assembly

variable {T : Type}

/-! ## Cells over a finite type -/

/-- A cell is undefined or has a value. -/
def MemoryCell.equivOption : MemoryCell T ≃ Option T where
  toFun
    | .undefined => none
    | .defined value => some value
  invFun
    | none => .undefined
    | some value => .defined value
  left_inv cell := by cases cell <;> rfl
  right_inv value := by cases value <;> rfl

instance [Fintype T] : Fintype (MemoryCell T) :=
  Fintype.ofEquiv (Option T) MemoryCell.equivOption.symm

theorem MemoryCell.card [Fintype T] : Fintype.card (MemoryCell T) = Fintype.card T + 1 := by
  rw [Fintype.card_congr MemoryCell.equivOption, Fintype.card_option]

namespace Stage04

/-! ## What an iteration looks at -/

/-- The destinations of a program and its pointer. -/
def view (program : Program T) (machine : Machine T) : ℕ × (program.dests → MemoryCell T) :=
  (machine.cpu.instructionPointer,
    fun address => (machine.cpu.getCell address).getD .undefined)

/-- There are the same cells as at the start, and but for the destinations they are unchanged. -/
def Unchanged (program : Program T) (start machine : Machine T) : Prop :=
  ∀ address, (machine.cpu.getCell address).isSome = (start.cpu.getCell address).isSome ∧
    (address ∉ program.dests → machine.cpu.getCell address = start.cpu.getCell address)

/-- All there is to tell two states at the head of the loop apart by. -/
def views [Fintype T] (program : Program T) : Finset (ℕ × (program.dests → MemoryCell T)) :=
  Finset.range program.instructions.length ×ˢ Finset.univ

private theorem card_views [Fintype T] (program : Program T) :
    (views program).card =
      program.instructions.length * (Fintype.card T + 1) ^ program.dests.card := by
  rw [views, Finset.card_product, Finset.card_range, Finset.card_univ, Fintype.card_fun,
    MemoryCell.card, Fintype.card_coe]

/-- Two machines of one view have the same cells. -/
theorem getCell_eq_of_view {program : Program T} {start machine machine' : Machine T}
    (h : Unchanged program start machine) (h' : Unchanged program start machine')
    (hview : view program machine = view program machine') (address : AddressableExpr) :
    machine.cpu.getCell address = machine'.cpu.getCell address := by
  by_cases hdest : address ∈ program.dests
  · have hcontent := congrFun (Prod.mk.inj hview).2 ⟨address, hdest⟩
    have hsome := (h address).1.trans (h' address).1.symm
    cases hcell : machine.cpu.getCell address with
    | none =>
        rw [hcell, Option.isSome_none, eq_comm, Option.isSome_eq_false_iff,
          Option.isNone_iff_eq_none] at hsome
        exact hsome.symm
    | some cell =>
        rw [hcell, Option.isSome_some, eq_comm, Option.isSome_iff_exists] at hsome
        obtain ⟨cell', hcell'⟩ := hsome
        simp only [hcell, hcell', Option.getD_some] at hcontent
        rw [hcell', hcontent]
  · rw [(h address).2 hdest, (h' address).2 hdest]

variable [Value T] {program : Program T} {start machine machine' : Machine T}

/-! ## Iterations as a system that may end -/

/-- One iteration, if the loop goes on behind it. -/
def advance (program : Program T) (machine : Machine T) : Option (Machine T) :=
  match (iterate program).run machine with
  | .ok true next => some next
  | _ => none

private theorem advance_eq_some :
    advance program machine = some machine' ↔ Step program machine machine' := by
  unfold advance Step
  split
  · next h => rw [h, Option.some.injEq, EStateM.Result.ok.injEq, and_iff_right rfl]
  · next h =>
      refine iff_of_false nofun fun hstep => ?_
      exact h machine' hstep

/-- The loop has not ended by then if as many iterations go on. -/
theorem executeProgram_eq_none (fuel : ℕ) :
    executeProgram program fuel machine = none ↔
      (Halting.after (advance program) fuel machine).isSome := by
  induction fuel generalizing machine with
  | zero => exact iff_of_true rfl rfl
  | succ fuel ih =>
      rw [executeProgram, Halting.after_succ, advance]
      cases (iterate program).run machine with
      | ok again next =>
          cases again with
          | true => exact ih
          | false =>
              constructor <;>
                · intro h
                  cases h
      | error failure next =>
          constructor <;>
            · intro h
              cases h

/-! ## The bound -/

theorem viewed [Fintype T] (program : Program T) (start : Machine T) :
    Halting.Viewed (advance program) (Unchanged program start) (view program) (views program) where
  keeps := by
    intro machine machine' h hstep address
    obtain ⟨hsome, hkept⟩ := (KeepsOthers.step (advance_eq_some.mp hstep)).getCell address
    exact ⟨hsome.trans (h address).1, fun hdest => (hkept hdest).trans ((h address).2 hdest)⟩
  agree := by
    intro machine machine' h h' hview
    -- destinations are in the view, and the other cells are as at the start
    have hcells := getCell_eq_of_view h h' hview
    have hsubset : program.addresses ⊆ program.addresses ∪ program.dests := Finset.subset_union_left
    have hiterate := lockstep_iterate hsubset machine machine'
      (.start (Prod.mk.inj hview).1 fun address _ => hcells address)
    rw [advance, advance]
    generalize (iterate program).run machine = next at hiterate
    generalize (iterate program).run machine' = next' at hiterate
    cases hiterate with
    | error => rfl
    | @ok again next next' hsame =>
        cases again with
        | false => rfl
        | true =>
            refine congrArg some (Prod.ext hsame.pointer (funext fun address => ?_))
            have hdest := Finset.mem_union_right program.addresses address.property
            exact congrArg (Option.getD · .undefined) (hsame.cells address hdest)
  bounded := by
    intro machine machine' _ hstep
    rw [views, Finset.mem_product, Finset.mem_range]
    refine ⟨?_, Finset.mem_univ _⟩
    -- behind the last instruction the loop ends
    by_contra hend
    have hstep := advance_eq_some.mp hstep
    rw [Step, iterate_run_end (Nat.not_lt.mp hend)] at hstep
    cases hstep

/-- **Whether a program ends is settled** by as many evaluations of its condition as there are
positions of the pointer and contents of the destinations, and one more. -/
theorem ends_within_bound [Fintype T] (program : Program T) (machine : Machine T) :
    (∃ outcome, Runs program machine outcome) ↔
      (executeProgram program
        (program.instructions.length * (Fintype.card T + 1) ^ program.dests.card + 1)
        machine).isSome := by
  constructor
  · rintro ⟨outcome, fuel, hfuel⟩
    by_contra hlong
    rw [Bool.not_eq_true, Option.isSome_eq_false_iff, Option.isNone_iff_eq_none,
      executeProgram_eq_none, ← card_views] at hlong
    have hforever := (viewed program machine).goes_on_of_long (fun _ => ⟨rfl, fun _ => rfl⟩) hlong
    rw [executeProgram_eq_none fuel |>.mpr (hforever fuel)] at hfuel
    cases hfuel
  · intro h
    obtain ⟨outcome, houtcome⟩ := Option.isSome_iff_exists.mp h
    exact ⟨outcome, _, houtcome⟩

end Stage04

end RustCourse.Assembly
