import Mathlib.Data.List.Infix
import RustCourse.Lib.Transition

/-!
# Dataflow components

A component has an input port and an output port and is otherwise a transition system.
What passes a port is a signal: an item, the end of the stream, announced by the side
that produces, or a hang-up, announced by the side that consumes.  Two components are
put in sequence by letting the output port of the first be the input port of the
second: a signal on the shared port is one step of both.  There is no buffer in
between, a buffer is a component of its own.

The specification of a component is a `Behaviour`, a function on item lists together
with the inputs on which the component dies.  `Implements` compares it with every run:

* the items that came out are a prefix of what the behaviour makes of the items that
  went in;
* a component ends its output only when it has put out all of it, and because its input
  ended or it died;
* a component hangs up on its input only because its output was hung up or it died.

The last two have to be proved together, since a hang-up on the shared port is what
could otherwise cut the output of a component in the middle short.  `Implements.seq`
is the result: implementations compose.
-/

namespace RustCourse.Dataflow

open Transition

/-! ## Ports -/

/-- What passes a port. -/
inductive Signal (α : Type)
  | item (x : α)
  /-- the producing side is done -/
  | eof
  /-- the consuming side is gone -/
  | hangup

variable {I M O α : Type}

/-- The items among the signals of a port. -/
def items (signals : List (Signal α)) : List α :=
  signals.filterMap fun
    | .item x => some x
    | .eof => none
    | .hangup => none

/-- How a port was closed: by the first signal that is no item. -/
def closing : List (Signal α) → Option (Signal α)
  | [] => none
  | .item _ :: rest => closing rest
  | .eof :: _ => some .eof
  | .hangup :: _ => some .hangup

/-- The producing side was done first. -/
def Ended (signals : List (Signal α)) : Prop :=
  closing signals = some .eof

/-- The consuming side was gone first. -/
def HungUp (signals : List (Signal α)) : Prop :=
  closing signals = some .hangup

section Ports

variable {signals : List (Signal α)} {x : α}

@[simp] theorem items_nil : items ([] : List (Signal α)) = [] := rfl

@[simp] theorem items_item : items (signals ++ [.item x]) = items signals ++ [x] := by
  simp [items]

@[simp] theorem items_eof : items (signals ++ [.eof]) = items signals := by
  simp [items]

@[simp] theorem items_hangup : items (signals ++ [.hangup]) = items signals := by
  simp [items]

@[simp] theorem not_ended_nil : ¬ Ended ([] : List (Signal α)) := by
  simp [Ended, closing]

@[simp] theorem not_hungUp_nil : ¬ HungUp ([] : List (Signal α)) := by
  simp [HungUp, closing]

theorem closing_snoc (signals : List (Signal α)) (signal : Signal α) :
    closing (signals ++ [signal]) = (closing signals).or (closing [signal]) := by
  induction signals with
  | nil => rfl
  | cons first rest ih => cases first <;> simp [closing, ih]

theorem closing_ne_item (signals : List (Signal α)) (x : α) :
    closing signals ≠ some (.item x) := by
  induction signals with
  | nil => simp [closing]
  | cons first rest ih => cases first <;> simp [closing, ih]

@[simp] theorem ended_item : Ended (signals ++ [.item x]) ↔ Ended signals := by
  simp [Ended, closing_snoc, closing]

@[simp] theorem hungUp_item : HungUp (signals ++ [.item x]) ↔ HungUp signals := by
  simp [HungUp, closing_snoc, closing]

@[simp] theorem ended_eof : Ended (signals ++ [.eof]) ↔ ¬ HungUp signals := by
  rcases h : closing signals with _ | _ | _ | _ <;>
    simp [Ended, HungUp, closing_snoc, h, closing]
  exact closing_ne_item _ _ h

@[simp] theorem hungUp_eof : HungUp (signals ++ [.eof]) ↔ HungUp signals := by
  rcases h : closing signals with _ | _ | _ | _ <;>
    simp [HungUp, closing_snoc, h, closing]

@[simp] theorem ended_hangup : Ended (signals ++ [.hangup]) ↔ Ended signals := by
  rcases h : closing signals with _ | _ | _ | _ <;>
    simp [Ended, closing_snoc, h, closing]

@[simp] theorem hungUp_hangup : HungUp (signals ++ [.hangup]) ↔ ¬ Ended signals := by
  rcases h : closing signals with _ | _ | _ | _ <;>
    simp [Ended, HungUp, closing_snoc, h, closing]
  exact closing_ne_item _ _ h

theorem mem_of_closing {signal : Signal α} (h : closing signals = some signal) :
    signal ∈ signals := by
  induction signals with
  | nil => simp [closing] at h
  | cons first rest ih => cases first <;> simp_all [closing]

theorem Ended.not_hungUp (h : Ended signals) : ¬ HungUp signals := by
  rw [HungUp, h]
  simp

end Ports

/-! ## Components -/

/-- What one step exchanges with the outside, on the input and on the output port. -/
abbrev Exchange (I O : Type) := Option (Signal I) × Option (Signal O)

/-- A transition system with an input port and an output port. -/
structure Component (I O : Type) : Type 1 where
  State : Type
  init : State
  step : State → Exchange I O → State → Prop

/-- The signals a run took in. -/
def inputs {σ : Type} (trace : List (σ × Exchange I O)) : List (Signal I) :=
  trace.filterMap fun p => p.2.1

/-- The signals a run put out. -/
def outputs {σ : Type} (trace : List (σ × Exchange I O)) : List (Signal O) :=
  trace.filterMap fun p => p.2.2

@[simp] theorem inputs_nil {σ : Type} : inputs ([] : List (σ × Exchange I O)) = [] := rfl

@[simp] theorem outputs_nil {σ : Type} : outputs ([] : List (σ × Exchange I O)) = [] := rfl

theorem inputs_append {σ : Type} (trace rest : List (σ × Exchange I O)) :
    inputs (trace ++ rest) = inputs trace ++ inputs rest :=
  List.filterMap_append ..

@[simp] theorem inputs_snoc {σ : Type} (trace : List (σ × Exchange I O)) (s : σ)
    (l : Exchange I O) : inputs (trace ++ [(s, l)]) = inputs trace ++ l.1.toList := by
  simp only [inputs, List.filterMap_append]
  cases h : l.1 <;> simp [h]

@[simp] theorem outputs_snoc {σ : Type} (trace : List (σ × Exchange I O)) (s : σ)
    (l : Exchange I O) : outputs (trace ++ [(s, l)]) = outputs trace ++ l.2.toList := by
  simp only [outputs, List.filterMap_append]
  cases h : l.2 <;> simp [h]

namespace Component

/-- The runs of a component, with an environment that exchanges anything the component
can exchange. -/
abbrev Runs (C : Component I O) (trace : List (C.State × Exchange I O)) (s : C.State) : Prop :=
  Run C.step C.init trace s

/-- A step of two components that share a port. -/
inductive SeqStep (P : Component I M) (C : Component M O) :
    P.State × C.State → Exchange I O → P.State × C.State → Prop
  | left {s s' t i} : P.step s (i, none) s' → SeqStep P C (s, t) (i, none) (s', t)
  | right {s t t' o} : C.step t (none, o) t' → SeqStep P C (s, t) (none, o) (s, t')
  | both {s s' t t' i signal o} : P.step s (i, some signal) s' → C.step t (some signal, o) t' →
      SeqStep P C (s, t) (i, o) (s', t')

/-- The output port of `P` is the input port of `C`. -/
abbrev seq (P : Component I M) (C : Component M O) : Component I O where
  State := P.State × C.State
  init := (P.init, C.init)
  step := SeqStep P C

/-- A run of a sequence is a run of each component, with the same signals on the shared
port. -/
theorem runs_of_seq {P : Component I M} {C : Component M O}
    {trace : List ((P.seq C).State × Exchange I O)} {s : (P.seq C).State}
    (hrun : (P.seq C).Runs trace s) :
    ∃ first second, P.Runs first s.1 ∧ C.Runs second s.2 ∧ inputs first = inputs trace ∧
      outputs first = inputs second ∧ outputs second = outputs trace := by
  refine hrun.invariantTrace (I := fun trace s => ∃ first second, P.Runs first s.1 ∧
    C.Runs second s.2 ∧ inputs first = inputs trace ∧ outputs first = inputs second ∧
    outputs second = outputs trace) ⟨[], [], .nil, .nil, rfl, rfl, rfl⟩ ?_
  rintro trace s l s' - ⟨first, second, hfirst, hsecond, hin, hshared, hout⟩ hstep
  cases hstep with
  | left hP =>
      exact ⟨_, second, hfirst.snoc hP, hsecond, by simp [hin], by simp [hshared], by simp [hout]⟩
  | right hC =>
      exact ⟨first, _, hfirst, hsecond.snoc hC, by simp [hin], by simp [hshared], by simp [hout]⟩
  | both hP hC =>
      exact ⟨_, _, hfirst.snoc hP, hsecond.snoc hC, by simp [hin], by simp [hshared],
        by simp [hout]⟩

end Component

/-! ## Behaviours -/

/-- What a component makes of a list of items, and on which inputs it dies.  More input
never changes what was put out, and after a death it adds nothing. -/
structure Behaviour (I O : Type) where
  out : List I → List O
  dies : List I → Prop
  out_mono : ∀ {xs ys}, xs <+: ys → out xs <+: out ys
  dies_mono : ∀ {xs ys}, xs <+: ys → dies xs → dies ys
  out_stable : ∀ {xs ys}, xs <+: ys → dies xs → out ys = out xs

namespace Behaviour

/-- A behaviour that never dies. -/
def total (out : List I → List O) (out_mono : ∀ {xs ys}, xs <+: ys → out xs <+: out ys) :
    Behaviour I O where
  out
  dies _ := False
  out_mono
  dies_mono _ h := h
  out_stable _ h := h.elim

/-- Putting out what comes in. -/
def forward : Behaviour α α :=
  total id id

/-- One behaviour behind another. -/
def comp (B : Behaviour I M) (B' : Behaviour M O) : Behaviour I O where
  out xs := B'.out (B.out xs)
  dies xs := B.dies xs ∨ B'.dies (B.out xs)
  out_mono h := B'.out_mono (B.out_mono h)
  dies_mono h := Or.imp (B.dies_mono h) (B'.dies_mono (B.out_mono h))
  out_stable h
    | .inl hdies => congrArg B'.out (B.out_stable h hdies)
    | .inr hdies => B'.out_stable (B.out_mono h) hdies

end Behaviour

/-! ## Implementations -/

/-- `C` behaves as `B` says in every environment. -/
structure Implements (C : Component I O) (B : Behaviour I O) : Prop where
  items : ∀ {trace s}, C.Runs trace s → items (outputs trace) <+: B.out (items (inputs trace))
  ended : ∀ {trace s}, C.Runs trace s → Ended (outputs trace) →
    Dataflow.items (outputs trace) = B.out (Dataflow.items (inputs trace)) ∧
      (Ended (inputs trace) ∨ B.dies (Dataflow.items (inputs trace)))
  hungUp : ∀ {trace s}, C.Runs trace s → HungUp (inputs trace) →
    HungUp (outputs trace) ∨ B.dies (Dataflow.items (inputs trace))

/-- A behaviour may be replaced by one that agrees with it. -/
theorem Implements.congr {C : Component I O} {B B' : Behaviour I O} (h : Implements C B)
    (hout : ∀ xs, B'.out xs = B.out xs) (hdies : ∀ xs, B'.dies xs ↔ B.dies xs) :
    Implements C B' where
  items hrun := hout _ ▸ h.items hrun
  ended hrun hended := by
    rw [hout, hdies]
    exact h.ended hrun hended
  hungUp hrun hhungUp := by
    rw [hdies]
    exact h.hungUp hrun hhungUp

/-- **Implementations compose.** -/
theorem Implements.seq {P : Component I M} {C : Component M O} {B : Behaviour I M}
    {B' : Behaviour M O} (hP : Implements P B) (hC : Implements C B') :
    Implements (P.seq C) (B.comp B') where
  items hrun := by
    obtain ⟨first, second, hfirst, hsecond, hin, hshared, hout⟩ := Component.runs_of_seq hrun
    rw [← hin, ← hout]
    refine (hC.items hsecond).trans ?_
    rw [← hshared]
    exact B'.out_mono (hP.items hfirst)
  ended hrun hended := by
    obtain ⟨first, second, hfirst, hsecond, hin, hshared, hout⟩ := Component.runs_of_seq hrun
    rw [← hout] at hended ⊢
    rw [← hin]
    obtain ⟨hitems, hcause⟩ := hC.ended hsecond hended
    rw [← hshared] at hitems hcause
    rcases hcause with hcause | hdies
    · obtain ⟨hmiddle, hcause⟩ := hP.ended hfirst hcause
      exact ⟨by rw [hitems, hmiddle]; rfl, hcause.imp_right .inl⟩
    · -- what the first component still put out after this death changes nothing
      have hinitial := hP.items hfirst
      exact ⟨hitems.trans (B'.out_stable hinitial hdies).symm,
        .inr (.inr (B'.dies_mono hinitial hdies))⟩
  hungUp hrun hhungUp := by
    obtain ⟨first, second, hfirst, hsecond, hin, hshared, hout⟩ := Component.runs_of_seq hrun
    rw [← hin] at hhungUp ⊢
    rw [← hout]
    rcases hP.hungUp hfirst hhungUp with hmiddle | hdies
    -- a hang-up of the first component was caused on the shared port, or it died
    · rw [hshared] at hmiddle
      rcases hC.hungUp hsecond hmiddle with hlast | hdies
      · exact .inl hlast
      · rw [← hshared] at hdies
        exact .inr (.inr (B'.dies_mono (hP.items hfirst) hdies))
    · exact .inr (.inl hdies)

end RustCourse.Dataflow
