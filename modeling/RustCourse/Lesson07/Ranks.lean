import Mathlib.Algebra.BigOperators.Fin
import RustCourse.Lib.Rank
import RustCourse.Lesson07.Factorio

/-!
# Every pipeline comes to an end

A rank for the thread of a stage and one for `fork_join`.  An item that a thread takes in pays
for the item it puts out; an item that the distributer takes in pays for one job on every
line, and the results of the lines pay for the joined item.  With the ranks of the channels
these add up to a rank of the pipeline (`Stages.ranked`).

## Strategy

The rank of a thread is what it holds and the signals it has not sent yet.  For `fork_join` the
lines are summed up: a step of the distributer or the gatherer at one line changes one summand
(`sum_update`), and a step of a line changes its own.  The price of an item in front of a stage
is chosen after the price behind it, so the ranks are put together from the end.
-/

namespace RustCourse.Lesson07

open Dataflow

variable {I O L U : Type}

/-! ## Threads -/

/-- What a thread still has to do, if an item it puts out costs `price`. -/
def Thread.rank (price : ℕ) : Thread U → ℕ
  | .waiting => 3
  | .sending _ => price + 4
  | .exiting receiver sender => receiver.toNat + sender.toNat

theorem thread_ranked (f : I → Outcome (Option U)) (price : ℕ) :
    Ranked (thread f) (price + 2) price (Thread.rank price) := by
  refine ⟨fun {s s' l} hstep => .inl ?_⟩
  cases hstep <;> simp [Thread.rank] <;> omega

namespace ForkJoin

variable {nLines : ℕ} {Line : Component (O × ℕ) L} {join : List L → Outcome U}

/-- What the distributer still has to do, if a job costs `cost`. -/
def Distributer.rank (nLines cost : ℕ) : Distributer O → ℕ
  | .waiting => nLines + 2
  | .sending _ line => nLines + 2 + (nLines - line) * cost
  | .exiting receiver line => receiver.toNat + (nLines - line)

/-- What the gatherer still has to do, if the joined item costs `price`. -/
def Gatherer.rank (nLines price : ℕ) : Gatherer L U → ℕ
  | .gathering outputs => nLines + 2 + outputs.length * (price + 2)
  | .sending _ => nLines + 2 + price + 1
  | .exiting sender line => sender.toNat + (nLines - line)

/-- The ranks of the distributer, of the lines and of the gatherer. -/
def State.rank (rank : Line.State → ℕ) (cost price : ℕ) (s : State O U Line nLines) : ℕ :=
  s.distributer.rank nLines cost + (∑ k, rank (s.lines k)) + s.gatherer.rank nLines price

/-- The distributer goes on to the next line. -/
theorem Distributer.rank_sendFrom (cost : ℕ) (o : O) {line : ℕ} :
    (sendFrom nLines o line).rank nLines cost = nLines + 2 + (nLines - line) * cost := by
  rw [sendFrom]
  split
  · rfl
  · next hlast => simp [rank, Nat.sub_eq_zero_of_le (Nat.le_of_not_lt hlast)]

theorem sum_update (rank : Line.State → ℕ) (lines : Fin nLines → Line.State) (k : Fin nLines)
    (line : Line.State) :
    (∑ k', rank (Function.update lines k line k')) + rank (lines k) =
      (∑ k', rank (lines k')) + rank line := by
  have hupdate : (fun k' => rank (Function.update lines k line k')) =
      Function.update (fun k' => rank (lines k')) k (rank line) :=
    Function.comp_update ..
  rw [hupdate, Finset.sum_update_of_mem (Finset.mem_univ k),
    ← Finset.add_sum_erase Finset.univ _ (Finset.mem_univ k), Finset.sdiff_singleton_eq_erase]
  omega

theorem lines_ranked (hlines : 1 ≤ nLines) {cost price : ℕ} {rank : Line.State → ℕ}
    (hline : Ranked Line cost (price + 2) rank) :
    Ranked (ForkJoin.lines Line nLines join) (nLines * cost + 1) price
      (State.rank rank cost price) := by
  refine ⟨fun {s s' l} hstep => .inl ?_⟩
  cases hstep with
  | receive =>
      simp only [State.rank, Distributer.rank_sendFrom]
      simp [Distributer.rank]
      omega
  | recvFails => simp [State.rank, Distributer.rank]; omega
  | @distribute o lines g k line hline' =>
      have hlt := hline.lt hline' (by simp [Fails])
      have hsum := sum_update rank lines k line
      -- one job less is to be paid for
      have hcost : (nLines - k) * cost = (nLines - (k + 1)) * cost + cost := by
        rw [← Nat.succ_mul]
        congr 1
        omega
      simp only [State.rank, Distributer.rank_sendFrom]
      simp [Distributer.rank, hcost] at hlt ⊢
      omega
  | @distributeFails o lines g k line hline' =>
      have hle := hline.le hline'
      have hsum := sum_update rank lines k line
      simp [State.rank, Distributer.rank] at hle ⊢
      omega
  | dropReceiver => simp [State.rank, Distributer.rank]
  | @dropLineSender receiver lines g k line hline' =>
      have hlt := hline.lt hline' (by simp [Fails])
      have hsum := sum_update rank lines k line
      simp [State.rank, Distributer.rank] at hlt ⊢
      omega
  | @work d lines g k line hline' =>
      have hlt := hline.lt hline' (by simp [Fails])
      have hsum := sum_update rank lines k line
      simp [State.rank] at hlt ⊢
      omega
  | @gather d lines outputs output k line hk hline' =>
      have hlt := hline.lt hline' (by simp [Fails])
      have hsum := sum_update rank lines k line
      simp [State.rank, Gatherer.rank, Nat.add_mul] at hlt ⊢
      omega
  | @gatherFails d lines outputs k line hk hline' =>
      have hle := hline.le hline'
      have hsum := sum_update rank lines k line
      simp [State.rank, Gatherer.rank] at hle ⊢
      omega
  | @join d lines outputs u houtputs hjoin =>
      -- the results of one line alone pay for the item
      have hpaid : price + 2 ≤ outputs.length * (price + 2) :=
        Nat.le_mul_of_pos_left _ (by omega)
      simp [State.rank, Gatherer.rank]
      omega
  | joinPanics => simp [State.rank, Gatherer.rank]; omega
  | send => simp [State.rank, Gatherer.rank]; omega
  | sendFails => simp [State.rank, Gatherer.rank]; omega
  | dropSender => simp [State.rank, Gatherer.rank]
  | @dropLineReceiver d lines sender k line hline' =>
      have hlt := hline.lt hline' (by simp [Fails])
      have hsum := sum_update rank lines k line
      simp [State.rank, Gatherer.rank] at hlt ⊢
      omega

end ForkJoin

/-! ## Pipelines -/

theorem thread_hasRank (f : I → Outcome (Option U)) : HasRank (thread f) :=
  fun price => ⟨price + 2, _, thread_ranked f price⟩

theorem ForkJoin.worker_hasRank (queueSize : ℕ) (f : O → ℕ → Outcome L) :
    HasRank (ForkJoin.worker queueSize f) :=
  (syncChannel_hasRank queueSize).seq ((thread_hasRank _).seq (syncChannel_hasRank queueSize))

theorem ForkJoin.lines_hasRank {Line : Component (O × ℕ) L} {nLines : ℕ}
    {join : List L → Outcome U} (hline : HasRank Line) (hlines : 1 ≤ nLines) :
    HasRank (ForkJoin.lines Line nLines join) := by
  intro price
  obtain ⟨cost, rank, hline⟩ := hline (price + 2)
  exact ⟨nLines * cost + 1, _, lines_ranked hlines hline⟩

/-- Every pipeline has a rank. -/
theorem Stages.configure_hasRank (stages : Stages I O) (queueSize : ℕ) :
    HasRank (stages.configure (.new I queueSize)).pipeline := by
  have hchannel : ∀ {α : Type} (bound : ℕ), HasRank (syncChannel α bound) := syncChannel_hasRank
  induction stages with
  | none => exact (hchannel _).seq ((thread_hasRank _).seq (hchannel _))
  | map _ _ ih | filter _ _ ih | filterMap _ _ ih =>
      exact ih.seq ((thread_hasRank _).seq (hchannel _))
  | forkJoin _ _ _ _ hlines ih =>
      exact ih.seq ((ForkJoin.lines_hasRank (ForkJoin.worker_hasRank _ _) hlines).seq
        (hchannel _))

end RustCourse.Lesson07
