import RustCourse.Lib.SyncChannel

/-!
# Ranks of dataflow components

Does everything come to an end?  A rank answers this for networks of components: an item
that goes out of a component pays for what it causes behind it (`Ranked`), so ranks add up
along a sequence (`Ranked.seq`) and bound the length of every run without inputs
(`Ranked.bounded`).  A failed send or receive changes nothing and may be repeated, so it
alone need not lower the rank.

## Strategy

A rank is a number for every state, and an item that passes a port pays a toll.  An item that
comes in raises the rank by less than its toll, and one that goes out lowers it by more; in a
sequence the toll of the shared port cancels.  Without inputs every step that does not fail
lowers the rank, so there are at most as many of them as the rank says.
-/

namespace RustCourse.Dataflow

open Transition

variable {I M O α : Type}

/-! ## Tolls -/

/-- What a signal on a port costs. -/
def toll (price : ℕ) : Option (Signal α) → ℕ
  | some (.item _) => price
  | _ => 0

@[simp] theorem toll_none (price : ℕ) : toll price (none : Option (Signal α)) = 0 := rfl

@[simp] theorem toll_item (price : ℕ) (x : α) : toll price (some (.item x)) = price := rfl

@[simp] theorem toll_eof (price : ℕ) : toll price (some .eof : Option (Signal α)) = 0 := rfl

@[simp] theorem toll_hangup (price : ℕ) : toll price (some .hangup : Option (Signal α)) = 0 := rfl

/-- A failed send or receive, which may be repeated. -/
def Fails (l : Exchange I O) : Prop :=
  l.1 = some .hangup ∨ l.2 = some .eof

/-! ## Ranked components -/

/-- Every step lowers the rank, if an item pays `cost` when it comes in and takes `price` with
it when it goes out; steps that may be repeated need not. -/
structure Ranked (C : Component I O) (cost price : ℕ) (rank : C.State → ℕ) : Prop where
  step : ∀ {s s'} {l : Exchange I O}, C.step s l s' →
    rank s' + toll price l.2 < rank s + toll cost l.1 ∨
      Fails l ∧ rank s' + toll price l.2 ≤ rank s + toll cost l.1

variable {P : Component I M} {C : Component M O} {cost price price' : ℕ} {rank : P.State → ℕ}
  {rank' : C.State → ℕ}

theorem Ranked.le (h : Ranked P cost price rank) {s s' : P.State} {l : Exchange I M}
    (hstep : P.step s l s') : rank s' + toll price l.2 ≤ rank s + toll cost l.1 := by
  rcases h.step hstep with hlt | ⟨-, hle⟩
  · exact hlt.le
  · exact hle

theorem Ranked.lt (h : Ranked P cost price rank) {s s' : P.State} {l : Exchange I M}
    (hstep : P.step s l s') (hl : ¬ Fails l) :
    rank s' + toll price l.2 < rank s + toll cost l.1 :=
  (h.step hstep).resolve_right fun hfails => hl hfails.1

/-- **Ranks add up.**  What the first component puts out pays for what the second one does. -/
theorem Ranked.seq (hP : Ranked P cost price rank) (hC : Ranked C price price' rank') :
    Ranked (P.seq C) cost price' fun s => rank s.1 + rank' s.2 := by
  refine ⟨fun {s s' l} hstep => ?_⟩
  cases hstep with
  | left hstep =>
      rcases hP.step hstep with hlt | ⟨hfails, hle⟩
      · left
        simp only [toll_none] at hlt ⊢
        omega
      · refine .inr ⟨hfails.imp_right nofun, ?_⟩
        simp only [toll_none] at hle ⊢
        omega
  | right hstep =>
      rcases hC.step hstep with hlt | ⟨hfails, hle⟩
      · left
        simp only [toll_none] at hlt ⊢
        omega
      · refine .inr ⟨hfails.imp_left nofun, ?_⟩
        simp only [toll_none] at hle ⊢
        omega
  | @both s s' t t' i signal o hfirst hsecond =>
      have hle := hP.le hfirst
      have hle' := hC.le hsecond
      simp only at hle hle' ⊢
      by_cases hfails : i = some .hangup ∨ o = some .eof
      · exact .inr ⟨hfails, by omega⟩
      · rw [not_or] at hfails
        left
        -- the shared signal is a failure for one of the two at most
        by_cases hended : signal = .eof
        · have hlt := hC.lt hsecond (by simp [Fails, hended, hfails.2])
          simp only at hlt
          omega
        · have hlt := hP.lt hfirst (by simp [Fails, hended, hfails.1])
          simp only at hlt
          omega

/-! ## Bounded runs -/

/-- The signal is the end of the stream. -/
def Signal.isEof : Signal α → Bool
  | .eof => true
  | _ => false

/-- **Runs are finite.**  Without inputs, a run has no more steps than the rank says, not
counting that the end of the output is received again. -/
theorem Ranked.bounded (h : Ranked P cost price rank) {s t : P.State}
    {trace : List (P.State × Exchange I M)} (hrun : Run P.step s trace t)
    (hinputs : ∀ p ∈ trace, p.2.1 = none) :
    (trace.countP fun p => !p.2.2.any Signal.isEof) + rank t ≤ rank s := by
  refine hrun.invariantTraceUnder (C := fun _ l => l.1 = none)
    (I := fun trace t => (trace.countP fun p => !p.2.2.any Signal.isEof) + rank t ≤ rank s)
    hinputs (by simp) ?_
  intro trace t l u _ hle hinput hstep
  rw [List.countP_append, List.countP_singleton]
  have hdown := h.le hstep
  rw [hinput, toll_none] at hdown
  split
  · next hcounts =>
      have hlt := h.lt hstep (by
        rintro (hhangup | heof)
        · simp [hinput] at hhangup
        · simp [heof, Signal.isEof] at hcounts)
      rw [hinput, toll_none] at hlt
      omega
  · omega

/-- A channel pays for what it stores. -/
theorem syncChannel_ranked (bound price : ℕ) :
    Ranked (syncChannel α bound) (price + 2) price fun c =>
      (price + 1) * c.stored.length + c.sender.toNat + c.receiver.toNat := by
  refine ⟨fun {c c' l} hstep => ?_⟩
  cases hstep with
  | send =>
      left
      simp only [toll_item, toll_none, List.length_append, List.length_singleton, Nat.mul_succ]
      omega
  | recv =>
      left
      simp only [toll_item, toll_none, List.length_cons, Nat.mul_succ]
      omega
  | handOver => exact .inl (by simp)
  | sendFails => exact .inr ⟨.inl rfl, le_rfl⟩
  | recvFails => exact .inr ⟨.inr rfl, le_rfl⟩
  | dropSender => exact .inl (by simp)
  | dropReceiver =>
      left
      simp only [toll_hangup, toll_none, List.length_nil, Bool.toNat_true, Bool.toNat_false]
      omega

/-! ## Networks of ranked components -/

/-- Whatever an item costs that goes out, there is a rank. -/
def HasRank (C : Component I O) : Prop :=
  ∀ price, ∃ cost rank, Ranked C cost price rank

theorem HasRank.seq (hP : HasRank P) (hC : HasRank C) : HasRank (P.seq C) := by
  intro price
  obtain ⟨cost, rank, hC⟩ := hC price
  obtain ⟨cost', rank', hP⟩ := hP cost
  exact ⟨cost', _, hP.seq hC⟩

theorem syncChannel_hasRank (bound : ℕ) : HasRank (syncChannel α bound) :=
  fun price => ⟨price + 2, _, syncChannel_ranked bound price⟩

end RustCourse.Dataflow
