import RustCourse.Lib.SyncChannel

/-!
# Backpressure

A component that is not read soon stops reading.  How far it gets is the number of results
it can be behind: what the items that went in are worth, less what came out (`Holds`).

The number only means something while the output is read at all.  A component whose output
was hung up may take in and discard without bound, and in a sequence the second component
hangs up on the first when it dies.  Neither hurts: the first case is excluded at the end of
the sequence, and after a death nothing more is owed (`Behaviour.out_stable`).  So the
numbers of a sequence add up (`Holds.seq`), provided that the second component makes at most
one result of every item.

## Strategy

`Holds n` bounds what went in and has not come out, along every run in which the output was not
hung up.  A channel of bound `n` holds `n` items; the bounds of a sequence add up, because what
the first component has put out is what the second has taken in.
-/

namespace RustCourse.Dataflow

variable {I M O α : Type}

/-! ## How far ahead a component is -/

/-- One more item is worth at most one more result. -/
def Behaviour.AtMostOne (B : Behaviour I O) : Prop :=
  ∀ xs x, (B.out (xs ++ [x])).length ≤ (B.out xs).length + 1

/-- As long as its output is read, the component is at most `n` results behind. -/
def Holds (C : Component I O) (B : Behaviour I O) (n : ℕ) : Prop :=
  ∀ trace s, C.Runs trace s → ¬ HungUp (outputs trace) →
    (B.out (items (inputs trace))).length ≤ (items (outputs trace)).length + n

/-! ## Items and results -/

theorem Behaviour.AtMostOne.length_out_append {B : Behaviour I O} (hB : B.AtMostOne)
    (xs ys : List I) : (B.out (xs ++ ys)).length ≤ (B.out xs).length + ys.length := by
  induction ys using List.reverseRecOn with
  | nil => simp
  | append_singleton ys y ih =>
      calc (B.out (xs ++ (ys ++ [y]))).length
          = (B.out (xs ++ ys ++ [y])).length := by rw [List.append_assoc]
        _ ≤ (B.out (xs ++ ys)).length + 1 := hB _ y
        _ ≤ (B.out xs).length + ys.length + 1 := by omega
        _ = (B.out xs).length + (ys ++ [y]).length := by
            rw [List.length_append, List.length_singleton, Nat.add_assoc]

/-- A list that is at most `n` items longer is worth at most `n` more results. -/
theorem Behaviour.AtMostOne.length_out_le {B : Behaviour I O} (hB : B.AtMostOne) {xs ys : List I}
    {n : ℕ} (hinitial : xs <+: ys) (hlength : ys.length ≤ xs.length + n) :
    (B.out ys).length ≤ (B.out xs).length + n := by
  obtain ⟨rest, rfl⟩ := hinitial
  have hrest : rest.length ≤ n := by simpa using hlength
  have hout := hB.length_out_append xs rest
  omega

theorem Behaviour.forward_atMostOne : (Behaviour.forward : Behaviour α α).AtMostOne := by
  intro xs x
  simp [forward, total]

/-! ## Components -/

theorem Holds.congr {C : Component I O} {B B' : Behaviour I O} {n : ℕ} (h : Holds C B n)
    (hout : ∀ xs, B'.out xs = B.out xs) : Holds C B' n := by
  intro trace s hrun hreading
  rw [hout]
  exact h trace s hrun hreading

/-- **What a sequence holds** is what its components hold. -/
theorem Holds.seq {P : Component I M} {C : Component M O} {B : Behaviour I M}
    {B' : Behaviour M O} {n m : ℕ} (hP : Holds P B n) (hC : Holds C B' m)
    (hfirst : Implements P B) (hsecond : Implements C B') (hB' : B'.AtMostOne) :
    Holds (P.seq C) (B.comp B') (n + m) := by
  intro trace s hrun hreading
  obtain ⟨first, second, hleft, hright, hin, hshared, hout⟩ := Component.runs_of_seq hrun
  rw [← hin]
  rw [← hout] at hreading ⊢
  have hinitial : items (outputs first) <+: B.out (items (inputs first)) := hfirst.items hleft
  have hlast := hC second s.2 hright hreading
  rw [← hshared] at hlast
  change (B'.out (B.out (items (inputs first)))).length ≤ _
  by_cases hmiddle : HungUp (outputs first)
  · -- the second component is dead, and what the first one still made is worth nothing
    rw [hshared] at hmiddle
    have hdies := (hsecond.hungUp hright hmiddle).resolve_left hreading
    rw [← hshared] at hdies
    rw [B'.out_stable hinitial hdies]
    omega
  · have hbehind := hP first s.1 hleft hmiddle
    have hworth := hB'.length_out_le hinitial hbehind
    omega

/-! ## Channels -/

namespace SyncChannel

theorem length_stored_of_step {bound : ℕ} {c c' : SyncChannel α} {l : Exchange α α}
    (h : c.stored.length ≤ bound) (hstep : Step bound c l c') : c'.stored.length ≤ bound := by
  cases hstep with
  | send hroom => exact (List.length_append ..).trans_le hroom
  | recv => exact (Nat.le_succ _).trans h
  | dropReceiver => exact Nat.zero_le bound
  | handOver | sendFails | recvFails | dropSender => exact h

theorem length_stored {bound : ℕ} {trace : List (SyncChannel α × Exchange α α)}
    {c : SyncChannel α} (hrun : (syncChannel α bound).Runs trace c) :
    c.stored.length ≤ bound :=
  hrun.invariant (I := fun c : SyncChannel α => c.stored.length ≤ bound) (Nat.zero_le bound)
    fun _ _ _ h hstep => length_stored_of_step h hstep

end SyncChannel

/-- A channel holds what it stores. -/
theorem syncChannel_holds (bound : ℕ) : Holds (syncChannel α bound) .forward bound := by
  intro trace c hrun hreading
  change (items (inputs trace)).length ≤ _
  have h := syncChannel_invariant hrun
  cases hreceiver : c.receiver with
  | true =>
      have hstored := SyncChannel.length_stored hrun
      calc (items (inputs trace)).length
          = (items (outputs trace) ++ c.stored).length := by rw [h.flow hreceiver]
        _ = (items (outputs trace)).length + c.stored.length := List.length_append
        _ ≤ (items (outputs trace)).length + bound := by omega
  | false =>
      have hended := (h.received hreceiver).resolve_left hreading
      rw [(h.ended hended).1]
      exact Nat.le_add_right _ _

/-- A channel at the end holds what it stores on top. -/
theorem Holds.channel {C : Component I α} {B : Behaviour I α} {n : ℕ} (h : Holds C B n)
    (himpl : Implements C B) (bound : ℕ) : Holds (C.seq (syncChannel α bound)) B (n + bound) :=
  (h.seq (syncChannel_holds bound) himpl (syncChannel_implements bound)
    Behaviour.forward_atMostOne).congr fun _ => rfl

end RustCourse.Dataflow
