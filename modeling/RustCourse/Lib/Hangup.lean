import RustCourse.Lib.Liveness

/-!
# Components that hang up

A component whose output was hung up may hang up on its input, and then a sequence of
components hangs up from its end to its beginning.  Two questions are answered here.

What has been lost when that happens?  A component that hangs up only while it holds an item
it can put out nowhere (`Loses`) stays one with a channel behind it and with components that
never die in front of it.

And does it happen?  To show that a component can hang up, a run of it has to be built.
`Passes` says that there is one between two states, by the signals on its two ports.  The
parts of a sequence are run on their own, and as long as they agree on the signals of the
shared port their runs fit together (`Passes.seq`).  That a component handles an item
(`Handles`) and that it chokes on it after its output was hung up (`Chokes`) carry over from
the parts of a sequence to the whole.
-/

namespace RustCourse.Dataflow

variable {I M O α : Type}

/-! ## What is lost -/

/-- Something is missing among what was put out, and neither the end of the input nor a death
is the reason. -/
def Lost (B : Behaviour I O) (ins : List (Signal I)) (outs : List (Signal O)) : Prop :=
  ¬ Ended ins → ¬ B.dies (items ins) → items outs ≠ B.out (items ins)

/-- What is missing stays missing when more comes in. -/
theorem Lost.more {B : Behaviour I O} {ins ins' : List (Signal I)} {outs outs' : List (Signal O)}
    (h : Lost B ins outs) (houts : items outs <+: B.out (items ins))
    (hmore : items ins <+: items ins') (hended : Ended ins → Ended ins')
    (hsame : items outs' = items outs) : Lost B ins' outs' := by
  intro hopen hlives hall
  -- more input can only be expected to give more output
  refine h (fun h => hopen (hended h)) (fun hdies => hlives (B.dies_mono hmore hdies)) ?_
  rw [hsame] at hall
  have hle := (B.out_mono hmore).length_le
  rw [← hall] at hle
  exact houts.eq_of_length_le hle

/-- Whenever the component has hung up on its input, something is lost. -/
def Component.Loses (C : Component I O) (B : Behaviour I O) : Prop :=
  ∀ trace s, C.Runs trace s → HungUp (inputs trace) → Lost B (inputs trace) (outputs trace)

namespace Component.Loses

variable {P : Component I M} {C : Component M O} {B : Behaviour I M} {B' : Behaviour M O}

theorem congr {C : Component I O} {B B' : Behaviour I O} (h : C.Loses B)
    (hout : ∀ xs, B'.out xs = B.out xs) (hdies : ∀ xs, B'.dies xs ↔ B.dies xs) : C.Loses B' := by
  intro trace s hrun hhungUp
  simpa [Lost, hout, hdies] using h trace s hrun hhungUp

/-- A channel at the end adds nothing to what is put out. -/
theorem channel (h : P.Loses B) (himpl : Implements P B) (bound : ℕ) :
    (P.seq (syncChannel M bound)).Loses B := by
  intro trace s hrun hhungUp hopen hlives hall
  obtain ⟨first, last, hfirst, hlast, hin, hshared, hout⟩ := Component.runs_of_seq hrun
  rw [← hin] at hhungUp hopen hlives hall
  refine h _ _ hfirst hhungUp hopen hlives ?_
  have hforwarded := ((syncChannel_implements bound).items hlast).length_le
  rw [hout, hall, ← hshared] at hforwarded
  exact (himpl.items hfirst).eq_of_length_le hforwarded

/-- A component in front that never dies only hangs up because the one behind it did. -/
theorem seq (hP : Implements P B) (hlives : ∀ xs, ¬ B.dies xs) (hC : Implements C B')
    (h : C.Loses B') : (P.seq C).Loses (B.comp B') := by
  intro trace s hrun hhungUp _ hdies hall
  obtain ⟨first, last, hfirst, hlast, hin, hshared, hout⟩ := Component.runs_of_seq hrun
  rw [← hin] at hhungUp hdies hall
  rw [← hout] at hall
  have hmiddle : HungUp (inputs last) :=
    hshared ▸ (hP.hungUp hfirst hhungUp).resolve_right (hlives _)
  -- what is missing of a part of the input is missing of all of it
  have hinitial : items (inputs last) <+: B.out (items (inputs first)) :=
    hshared ▸ hP.items hfirst
  have hmissing := h _ _ hlast hmiddle fun hended => hended.not_hungUp hmiddle
  refine hmissing (fun hdead => hdies (.inr (B'.dies_mono hinitial hdead))) ?_
  have hle := (B'.out_mono hinitial).length_le
  rw [show B'.out (B.out (items (inputs first))) = items (outputs last) from hall.symm] at hle
  exact (hC.items hlast).eq_of_length_le hle

end Component.Loses

/-! ## After a hang-up -/

/-- Once its output was hung up, the component puts nothing out. -/
def Component.Mute (C : Component I O) : Prop :=
  ∀ trace s l s', C.Runs trace s → .hangup ∈ outputs trace → C.step s l s' → l.2 = none

theorem syncChannel_mute {bound : ℕ} : (syncChannel α bound).Mute := by
  intro trace c l c' hrun hhangup hstep
  have hreceiver : ¬ c.receiver = true :=
    (SyncChannel.alive_iff hrun).2.not.mpr (not_not.mpr hhangup)
  cases hstep with
  | send | sendFails | dropSender => rfl
  | recv | handOver | recvFails | dropReceiver => exact absurd rfl hreceiver

theorem Component.Mute.seq {P : Component I M} {C : Component M O} (h : C.Mute) :
    (P.seq C).Mute := by
  intro trace s l s' hrun hhangup hstep
  obtain ⟨first, last, -, hlast, -, -, hout⟩ := Component.runs_of_seq hrun
  rw [← hout] at hhangup
  cases hstep with
  | left => rfl
  | right hstep => exact h _ _ _ _ hlast hhangup hstep
  | both _ hstep => exact h _ _ _ _ hlast hhangup hstep

/-! ## Runs by what passes the ports -/

namespace Component

/-- The component can get from one state to another while the signals pass its ports. -/
inductive Passes (C : Component I O) (s : C.State) :
    List (Signal I) → List (Signal O) → C.State → Prop
  | nil : Passes C s [] [] s
  | snoc {t u ins outs i o} : Passes C s ins outs t → C.step t (i, o) u →
      Passes C s (ins ++ i.toList) (outs ++ o.toList) u

namespace Passes

variable {C : Component I O} {s t u : C.State} {ins ins' : List (Signal I)}
  {outs outs' : List (Signal O)}

theorem takes {signal : Signal I} (h : C.step s (some signal, none) t) :
    Passes C s [signal] [] t :=
  .snoc .nil h

theorem puts {signal : Signal O} (h : C.step s (none, some signal) t) :
    Passes C s [] [signal] t :=
  .snoc .nil h

/-- A step that nothing outside sees. -/
theorem silent (h : Passes C s ins outs t) (hstep : C.step t (none, none) u) :
    Passes C s ins outs u := by
  simpa using h.snoc hstep

theorem append (h : Passes C s ins outs t) (h' : Passes C t ins' outs' u) :
    Passes C s (ins ++ ins') (outs ++ outs') u := by
  induction h' with
  | nil => simpa using h
  | snoc _ hstep ih => simpa using ih.snoc hstep

/-- One round after the other, without a signal outside. -/
theorem iterate {state : ℕ → C.State} {count : ℕ}
    (h : ∀ k < count, Passes C (state k) [] [] (state (k + 1))) :
    Passes C (state 0) [] [] (state count) := by
  induction count with
  | zero => exact .nil
  | succ count ih => exact (ih fun k hk => h k (by omega)).append (h count (by omega))

theorem exists_run (h : Passes C s ins outs t) :
    ∃ trace, Transition.Run C.step s trace t ∧ inputs trace = ins ∧ outputs trace = outs := by
  induction h with
  | nil => exact ⟨[], .nil, rfl, rfl⟩
  | snoc _ hstep ih =>
      obtain ⟨trace, hrun, rfl, rfl⟩ := ih
      exact ⟨_, hrun.snoc hstep, by simp, by simp⟩

/-- The step in which the last signal came in. -/
theorem exists_last {signal : Signal I} (h : Passes C s (ins ++ [signal]) outs u) :
    ∃ t t' before o after, Passes C s ins before t ∧ C.step t (some signal, o) t' ∧
      Passes C t' [] after u ∧ outs = before ++ o.toList ++ after := by
  generalize hins : ins ++ [signal] = all at h
  induction h with
  | nil => simp at hins
  | @snoc t u earlier outs i o hbefore hstep ih =>
      cases i with
      | none =>
          obtain ⟨r, r', before, o', after, hfirst, hlast, hrest, rfl⟩ := ih (by simpa using hins)
          exact ⟨r, r', before, o', after ++ o.toList, hfirst, hlast,
            by simpa using hrest.snoc hstep, by simp⟩
      | some last =>
          obtain ⟨rfl, hsignal⟩ := List.append_inj' hins rfl
          obtain rfl : signal = last := by simpa using hsignal
          exact ⟨t, u, outs, o, [], hbefore, hstep, .nil, by simp⟩

variable {P : Component I M} {C : Component M O} {r r' : P.State} {t t' : C.State}
  {mid : List (Signal M)} {outs outs' : List (Signal O)}

/-- The second part of a sequence goes on without the first one. -/
theorem right {s : (P.seq C).State} (h : Passes (P.seq C) s ins outs (r, t))
    (hC : Passes C t [] outs' t') : Passes (P.seq C) s ins (outs ++ outs') (r, t') := by
  generalize hmid : ([] : List (Signal M)) = mid at hC
  induction hC with
  | nil => simpa using h
  | @snoc u u' mid outs' i o hbefore hstep ih =>
      obtain ⟨rfl, hi⟩ := List.append_eq_nil_iff.mp hmid.symm
      obtain rfl : i = none := by simpa using hi
      simpa using (ih rfl).snoc (.right hstep)

/-- **The parts of a sequence run together** if they agree on the shared port. -/
theorem seq (hP : Passes P r ins mid r') (hC : Passes C t mid outs t') :
    Passes (P.seq C) (r, t) ins outs (r', t') := by
  induction hP generalizing outs t' with
  | nil => simpa using Passes.nil.right hC
  | @snoc u u' ins mid i signal _ hstep ih =>
      cases signal with
      | none =>
          have hfirst := ih (by simpa using hC)
          simpa using hfirst.snoc (.left hstep)
      | some signal =>
          -- the second part has run up to this signal before, and goes on after it
          obtain ⟨w, w', before, o, after, hfirst, hlast, hrest, rfl⟩ := hC.exists_last
          exact ((ih hfirst).snoc (.both hstep hlast)).right hrest

end Passes

/-! ## One item -/

/-- The component turns `x` into `y` and is where it was. -/
def Handles (C : Component I O) (x : I) (y : O) : Prop :=
  Passes C C.init [.item x] [.item y] C.init

/-- After its output was hung up, the component takes `x` some times more and hangs up. -/
def Chokes (C : Component I O) (x : I) : Prop :=
  ∃ s, Passes C C.init [] [.hangup] s ∧
    ∃ count t, Passes C s (List.replicate count (.item x) ++ [.hangup]) [] t

variable {P : Component I M} {C : Component M O} {x : I} {m : M} {y : O}

theorem Handles.seq (hP : P.Handles x m) (hC : C.Handles m y) : (P.seq C).Handles x y :=
  Passes.seq hP hC

theorem Handles.replicate (h : P.Handles x m) (count : ℕ) :
    Passes P P.init (List.replicate count (.item x)) (List.replicate count (.item m)) P.init := by
  induction count with
  | zero => exact .nil
  | succ count ih =>
      rw [List.replicate_succ', List.replicate_succ']
      exact ih.append h

/-- What the second part of a sequence takes until it hangs up, the first part makes. -/
theorem Chokes.seq (hhandles : P.Handles x m) (hP : P.Chokes x) (hC : C.Chokes m) :
    (P.seq C).Chokes x := by
  obtain ⟨s, hhangup, count, t, hchokes⟩ := hP
  obtain ⟨s', hhangup', count', t', hchokes'⟩ := hC
  have hfirst := (hhandles.replicate count').append (hhangup.append hchokes)
  refine ⟨(P.init, s'), .seq .nil hhangup', count' + count, (t, t'), ?_⟩
  rw [List.replicate_add, List.append_assoc]
  exact .seq (by simpa using hfirst) hchokes'

end Component

/-! ## A channel -/

section Channel

variable {bound : ℕ}

theorem syncChannel_handles (hbound : 1 ≤ bound) (x : α) : (syncChannel α bound).Handles x x := by
  have hsent : (syncChannel α bound).Passes ⟨[], true, true⟩ [.item x] [] ⟨[x], true, true⟩ :=
    .takes (SyncChannel.Step.send hbound)
  exact hsent.append (.puts SyncChannel.Step.recv)

theorem syncChannel_chokes (bound : ℕ) (x : α) : (syncChannel α bound).Chokes x :=
  ⟨⟨[], true, false⟩, .puts SyncChannel.Step.dropReceiver, 0, ⟨[], true, false⟩,
    .takes SyncChannel.Step.sendFails⟩

/-- A component that chokes when a send of its own fails does so in front of a channel. -/
theorem Component.Chokes.channel {C : Component I O} {x : I} {count : ℕ} {t : C.State}
    (h : C.Passes C.init (List.replicate count (.item x) ++ [.hangup]) [.hangup] t) (bound : ℕ) :
    (C.seq (syncChannel O bound)).Chokes x :=
  ⟨(C.init, ⟨[], true, false⟩), .seq .nil (.puts SyncChannel.Step.dropReceiver), count,
    (t, ⟨[], true, false⟩), .seq h (.takes SyncChannel.Step.sendFails)⟩

end Channel

end RustCourse.Dataflow
