import RustCourse.Lib.Rank

/-!
# Networks that cannot get stuck

Components in sequence, linked by bounded channels, can block each other in two ways: a
channel can be full and a channel can be empty.  To see that somebody always moves, look at
a component that cannot move by itself.

A stage is then poised to do something with one of its neighbours, or it has left both its
channels (`Poised`).  A network is responsive (`Responsive`): while its output is not hung up
it offers an item, or it has run dry and is done, or it has put out all there is and is open
for more; and when its output is hung up it either is done or lets its input know.  With one
more stage and one more channel of any size behind it a network is responsive again
(`Responsive.stage`), so nothing has to be said about circular waits in a chain of stages.

## Strategy

By induction along the network: with a stage and a channel behind it, a responsive network is
one again.  The cases are those of `Poised` for the stage.  If it waits for its input, the
network in front of it has to offer something or is itself open for more; if it waits for its
output, the channel behind it has room, or holds an item for the reader.
-/

namespace RustCourse.Dataflow

open Transition

variable {I M O α : Type}

namespace Component

/-- The component can take a signal in while it puts nothing out. -/
def TakesIn (C : Component I O) (s : C.State) (signal : Signal I) : Prop :=
  ∃ s', C.step s (some signal, none) s'

/-- The component can put a signal out while it takes nothing in. -/
def PutsOut (C : Component I O) (s : C.State) (signal : Signal O) : Prop :=
  ∃ s', C.step s (none, some signal) s'

/-- The component can handle an item, or says that it is gone; a channel of size 0 takes an
item in only when it hands it over. -/
def Accepts (C : Component I O) (s : C.State) (x : I) : Prop :=
  C.TakesIn s (.item x) ∨ C.TakesIn s .hangup ∨
    ∃ y s', C.step s (some (.item x), some (.item y)) s'

/-- The component cannot move by itself. -/
def Stuck (C : Component I O) (s : C.State) : Prop :=
  ∀ s', ¬ C.step s (none, none) s'

/-- Nothing is put out in the step in which something is taken in. -/
def Separate (C : Component I O) : Prop :=
  ∀ {s s'} {signal : Signal I} {o : Option (Signal O)}, C.step s (some signal, o) s' → o = none

section Seq

variable {P : Component I M} {C : Component M O} {s : (P.seq C).State}

theorem Stuck.left (h : (P.seq C).Stuck s) : P.Stuck s.1 :=
  fun _ hstep => h _ (.left hstep)

theorem Stuck.right (h : (P.seq C).Stuck s) : C.Stuck s.2 :=
  fun _ hstep => h _ (.right hstep)

theorem Stuck.shared (h : (P.seq C).Stuck s) {signal : Signal M} (hfirst : P.PutsOut s.1 signal)
    (hsecond : C.TakesIn s.2 signal) : False := by
  obtain ⟨s', hfirst⟩ := hfirst
  obtain ⟨t', hsecond⟩ := hsecond
  exact h _ (.both hfirst hsecond)

theorem TakesIn.seq {signal : Signal I} (h : P.TakesIn s.1 signal) :
    (P.seq C).TakesIn s signal := by
  obtain ⟨s', hstep⟩ := h
  exact ⟨_, .left hstep⟩

theorem PutsOut.seq {signal : Signal O} (h : C.PutsOut s.2 signal) :
    (P.seq C).PutsOut s signal := by
  obtain ⟨t', hstep⟩ := h
  exact ⟨_, .right hstep⟩

/-- What the first component hands over, the second one takes. -/
theorem Accepts.seq {x : I} (h : P.Accepts s.1 x) (hsecond : ∀ y, C.TakesIn s.2 (.item y)) :
    (P.seq C).TakesIn s (.item x) ∨ (P.seq C).TakesIn s .hangup := by
  rcases h with hitem | hhangup | ⟨y, s', hfirst⟩
  · exact .inl hitem.seq
  · exact .inr hhangup.seq
  · obtain ⟨t', hsecond⟩ := hsecond y
    exact .inl ⟨_, .both hfirst hsecond⟩

theorem Separate.seq_left (h : P.Separate) : (P.seq C).Separate := by
  intro s s' signal o hstep
  cases hstep with
  | left => rfl
  | both hfirst => cases h hfirst

theorem Separate.seq_right (h : C.Separate) : (P.seq C).Separate := by
  intro s s' signal o hstep
  cases hstep with
  | left => rfl
  | both _ hsecond => exact h hsecond

end Seq

end Component

/-! ## Stages and networks -/

/-- A component that never dies and can end its output was told that its input ended, unless
its output was hung up before. -/
theorem Implements.mem_inputs {C : Component I O} {B : Behaviour I O} (h : Implements C B)
    (hlives : ∀ xs, ¬ B.dies xs) {trace : List (C.State × Exchange I O)} {s : C.State}
    (hrun : C.Runs trace s) (hopen : .hangup ∉ outputs trace) (hputs : C.PutsOut s .eof) :
    .eof ∈ inputs trace := by
  obtain ⟨s', hstep⟩ := hputs
  have hhungUp : ¬ HungUp (outputs trace) := fun h => hopen (mem_of_closing h)
  have hended := (h.ended (hrun.snoc hstep) (by simpa using hhungUp)).2
  have hcause : Ended (inputs trace) := by simpa using hended.resolve_right (hlives _)
  exact mem_of_closing hcause

/-- What a stage that cannot move by itself is ready to do with one of its neighbours, given
what it took in and put out. -/
inductive Poised (T : Component I O) (B : Behaviour I O) (Done : T.State → Prop)
    (ins : List (Signal I)) (outs : List (Signal O)) (t : T.State) : Prop
  | sending {x} : T.PutsOut t (.item x) → T.PutsOut t .hangup → .eof ∉ outs →
      Poised T B Done ins outs t
  | waiting : (∀ x, T.TakesIn t (.item x)) → T.TakesIn t .eof → .hangup ∉ ins →
      (.hangup ∉ outs → items outs = B.out (items ins)) → Poised T B Done ins outs t
  | leavesInput : T.TakesIn t .hangup → .hangup ∉ ins → Poised T B Done ins outs t
  | leavesOutput : T.PutsOut t .eof → .eof ∉ outs → Poised T B Done ins outs t
  | done : Done t → .hangup ∈ ins → .eof ∈ outs → Poised T B Done ins outs t

/-- One stage, which never dies. -/
structure Stage (T : Component I O) (B : Behaviour I O) (Done : T.State → Prop) : Prop where
  implements : Implements T B
  lives : ∀ xs, ¬ B.dies xs
  poised : ∀ {trace t}, T.Runs trace t → T.Stuck t →
    Poised T B Done (inputs trace) (outputs trace) t

/-- A network between two channel ends.  Its first end can be closed once, and takes nothing
in after that; its last end can be closed as long as it is open. -/
structure Responsive (C : Component I O) (B : Behaviour I O) (Done : C.State → Prop) :
    Prop where
  implements : Implements C B
  lives : ∀ xs, ¬ B.dies xs
  feeds : ∀ {trace s}, C.Runs trace s → C.Stuck s → .hangup ∉ outputs trace →
    (∃ x, C.PutsOut s (.item x)) ∨ (.eof ∈ inputs trace ∧ C.PutsOut s .eof ∧ Done s) ∨
      (.eof ∉ inputs trace ∧ items (outputs trace) = B.out (items (inputs trace)) ∧
        ∀ x, C.Accepts s x)
  stops : ∀ {trace s}, C.Runs trace s → C.Stuck s → .hangup ∈ outputs trace →
    (.eof ∈ inputs trace ∧ Done s) ∨
      (.eof ∉ inputs trace ∧ ∀ x, C.TakesIn s (.item x) ∨ C.TakesIn s .hangup)
  endable : ∀ {trace s}, C.Runs trace s → .eof ∉ inputs trace → C.TakesIn s .eof
  hangable : ∀ {trace s}, C.Runs trace s → .hangup ∉ outputs trace → C.PutsOut s .hangup
  closed : ∀ {trace s l s'}, C.Runs trace s → .eof ∈ inputs trace → C.step s l s' → l.1 = none

/-- A behaviour and a notion of being done may be replaced by ones that agree with them. -/
theorem Responsive.congr {C : Component I O} {B B' : Behaviour I O} {Done Done' : C.State → Prop}
    (h : Responsive C B Done) (hout : ∀ xs, B'.out xs = B.out xs)
    (hdies : ∀ xs, B'.dies xs ↔ B.dies xs) (hdone : ∀ s, Done s → Done' s) :
    Responsive C B' Done' where
  implements := h.implements.congr hout hdies
  lives xs hdead := h.lives xs ((hdies xs).mp hdead)
  feeds hrun hstuck hopen := by
    rw [hout]
    exact (h.feeds hrun hstuck hopen).imp_right (Or.imp_left fun ⟨heof, hputs, hends⟩ =>
      ⟨heof, hputs, hdone _ hends⟩)
  stops hrun hstuck hclosed := (h.stops hrun hstuck hclosed).imp_left fun ⟨heof, hends⟩ =>
    ⟨heof, hdone _ hends⟩
  endable := h.endable
  hangable := h.hangable
  closed := h.closed

/-! ## Channels -/

section Channel

variable {bound : ℕ} {trace : List ((syncChannel α bound).State × Exchange α α)}
  {c : (syncChannel α bound).State}

/-- An end is alive until it was dropped. -/
theorem SyncChannel.alive_iff (hrun : (syncChannel α bound).Runs trace c) :
    (c.sender = true ↔ .eof ∉ inputs trace) ∧ (c.receiver = true ↔ .hangup ∉ outputs trace) := by
  refine hrun.invariantTrace (I := fun trace c => (c.sender = true ↔ .eof ∉ inputs trace) ∧
    (c.receiver = true ↔ .hangup ∉ outputs trace)) (by simp [syncChannel]) ?_
  rintro trace c l c' - ⟨hsender, hreceiver⟩ hstep
  rw [inputs_snoc, outputs_snoc]
  cases hstep <;> simp_all

/-- A send does not fail while the receiver is alive. -/
theorem SyncChannel.hangup_notMem (hrun : (syncChannel α bound).Runs trace c)
    (hreceiver : c.receiver = true) : .hangup ∉ inputs trace := by
  refine hrun.invariantTrace (I := fun trace c => c.receiver = true → .hangup ∉ inputs trace)
    (by simp) ?_ hreceiver
  intro trace c l c' _ hopen hstep
  rw [inputs_snoc]
  cases hstep <;> simp_all

/-- While the receiver is alive, an empty channel has forwarded everything. -/
theorem SyncChannel.forwarded (hrun : (syncChannel α bound).Runs trace c)
    (hreceiver : c.receiver = true) (hempty : c.stored = []) :
    items (outputs trace) = items (inputs trace) := by
  simpa [hempty] using (syncChannel_invariant hrun).flow hreceiver

theorem SyncChannel.putsOut_item {c : SyncChannel α} (hreceiver : c.receiver = true)
    (hstored : c.stored ≠ []) (bound : ℕ) : ∃ x, (syncChannel α bound).PutsOut c (.item x) := by
  obtain ⟨stored, sender, receiver⟩ := c
  cases stored with
  | nil => exact absurd rfl hstored
  | cons x rest =>
      obtain rfl : receiver = true := hreceiver
      exact ⟨x, _, .recv⟩

theorem SyncChannel.putsOut_eof (hsender : c.sender = false) (hreceiver : c.receiver = true)
    (hempty : c.stored = []) : (syncChannel α bound).PutsOut c .eof := by
  obtain ⟨stored, sender, receiver⟩ := c
  obtain ⟨rfl, rfl, rfl⟩ : stored = [] ∧ sender = false ∧ receiver = true :=
    ⟨hempty, hsender, hreceiver⟩
  exact ⟨_, .recvFails⟩

theorem SyncChannel.putsOut_hangup (hreceiver : c.receiver = true) :
    (syncChannel α bound).PutsOut c .hangup := by
  obtain ⟨stored, sender, receiver⟩ := c
  obtain rfl : receiver = true := hreceiver
  exact ⟨_, .dropReceiver⟩

theorem SyncChannel.takesIn_eof (hsender : c.sender = true) :
    (syncChannel α bound).TakesIn c .eof := by
  obtain ⟨stored, sender, receiver⟩ := c
  obtain rfl : sender = true := hsender
  exact ⟨_, .dropSender⟩

theorem SyncChannel.takesIn_hangup (hsender : c.sender = true) (hreceiver : c.receiver = false) :
    (syncChannel α bound).TakesIn c .hangup := by
  obtain ⟨stored, sender, receiver⟩ := c
  obtain ⟨rfl, rfl⟩ : sender = true ∧ receiver = false := ⟨hsender, hreceiver⟩
  exact ⟨_, .sendFails⟩

/-- An open channel stores an item, or something is stored, or it hands the item over. -/
theorem SyncChannel.send_cases (hsender : c.sender = true) (hreceiver : c.receiver = true)
    (x : α) : (syncChannel α bound).TakesIn c (.item x) ∨ c.stored ≠ [] ∨
      ∃ c', (syncChannel α bound).step c (some (.item x), some (.item x)) c' := by
  obtain ⟨stored, sender, receiver⟩ := c
  obtain ⟨rfl, rfl⟩ : sender = true ∧ receiver = true := ⟨hsender, hreceiver⟩
  by_cases hroom : stored.length < bound
  · exact .inl ⟨_, .send hroom⟩
  · cases stored with
    | nil => exact .inr (.inr ⟨_, .handOver (by simpa using hroom)⟩)
    | cons y rest => exact .inr (.inl (by simp))

end Channel

/-- A channel alone is the smallest network. -/
theorem syncChannel_responsive (bound : ℕ) :
    Responsive (syncChannel α bound) .forward fun _ => True where
  implements := syncChannel_implements bound
  lives _ := id
  feeds := by
    intro trace c hrun hstuck hopen
    have hreceiver := (SyncChannel.alive_iff hrun).2.mpr hopen
    by_cases hstored : c.stored = []
    · right
      by_cases heof : .eof ∈ inputs trace
      -- nothing is stored and the sender is gone: the reader sees the end
      · have hsender : c.sender = false := by
          simpa [heof] using (SyncChannel.alive_iff hrun).1
        exact .inl ⟨heof, SyncChannel.putsOut_eof hsender hreceiver hstored, trivial⟩
      · have hsender := (SyncChannel.alive_iff hrun).1.mpr heof
        refine .inr ⟨heof, SyncChannel.forwarded hrun hreceiver hstored, fun x => ?_⟩
        -- nothing is stored and the sender is there: a send can only be waited for by a reader
        rcases SyncChannel.send_cases hsender hreceiver x with htakes | hfull | ⟨c', hstep⟩
        · exact .inl htakes
        · exact absurd hstored hfull
        · exact .inr (.inr ⟨x, c', hstep⟩)
    · exact .inl (SyncChannel.putsOut_item hreceiver hstored bound)
  stops := by
    intro trace c hrun hstuck hclosed
    have hreceiver : c.receiver = false := by
      simpa [hclosed] using (SyncChannel.alive_iff hrun).2
    by_cases heof : .eof ∈ inputs trace
    · exact .inl ⟨heof, trivial⟩
    · have hsender := (SyncChannel.alive_iff hrun).1.mpr heof
      exact .inr ⟨heof, fun x => .inr (SyncChannel.takesIn_hangup hsender hreceiver)⟩
  endable hrun heof := SyncChannel.takesIn_eof ((SyncChannel.alive_iff hrun).1.mpr heof)
  hangable hrun hopen := SyncChannel.putsOut_hangup ((SyncChannel.alive_iff hrun).2.mpr hopen)
  closed := by
    intro trace c l c' hrun heof hstep
    have hsender : c.sender = false := by simpa [heof] using (SyncChannel.alive_iff hrun).1
    cases hstep with
    | send | handOver | sendFails | dropSender => cases hsender
    | recv | recvFails | dropReceiver => rfl

/-! ## One more stage -/

section Seq

variable {P : Component I M} {T : Component M O} {B : Behaviour I M} {B' : Behaviour M O}
  {DoneP : P.State → Prop} {DoneT : T.State → Prop} {bound : ℕ}

/-- **What a stuck network is up to**, by what its last stage is: the last channel holds an
item that cannot be put into it, or everything has been put into it and the network is open
for more, or the last stage is done. -/
theorem Responsive.stage_cases (hP : Responsive P B DoneP) (hT : Stage T B' DoneT)
    {trace : List ((P.seq (T.seq (syncChannel O bound))).State × Exchange I O)}
    {s : (P.seq (T.seq (syncChannel O bound))).State}
    (hrun : (P.seq (T.seq (syncChannel O bound))).Runs trace s)
    (hstuck : (P.seq (T.seq (syncChannel O bound))).Stuck s) :
    ∃ last, (syncChannel O bound).Runs last s.2.2 ∧ outputs last = outputs trace ∧
      ((s.2.2.receiver = true ∧ ∃ x, (P.seq (T.seq (syncChannel O bound))).PutsOut s (.item x)) ∨
      (.eof ∉ inputs trace ∧
        (.hangup ∉ inputs last → items (inputs last) = B'.out (B.out (items (inputs trace)))) ∧
        ∀ x, (P.seq (T.seq (syncChannel O bound))).TakesIn s (.item x) ∨
          (P.seq (T.seq (syncChannel O bound))).TakesIn s .hangup) ∨
      (s.2.2.sender = false ∧ DoneT s.2.1 ∧ (.eof ∈ inputs trace ∧ DoneP s.1 ∨
        .eof ∉ inputs trace ∧ ∀ x, (P.seq (T.seq (syncChannel O bound))).TakesIn s (.item x) ∨
          (P.seq (T.seq (syncChannel O bound))).TakesIn s .hangup))) := by
  obtain ⟨first, rest, hfirst, hrest, hin, hshared, hout⟩ := Component.runs_of_seq hrun
  obtain ⟨second, last, hsecond, hlast, hin', hshared', hout'⟩ := Component.runs_of_seq hrest
  refine ⟨last, hlast, hout'.trans hout, ?_⟩
  obtain ⟨hsender, hreceiver⟩ := SyncChannel.alive_iff hlast
  have hpoised := hT.poised hsecond hstuck.right.left
  rw [hin', ← hshared, hshared'] at hpoised
  rw [← hin]
  cases hpoised with
  | @sending x hitem hhangup hopen =>
      left
      have hsender := hsender.mpr hopen
      -- a send that does not go through waits for the receiver, which has to be alive
      by_cases hreceiver : s.2.2.receiver = true
      · refine ⟨hreceiver, ?_⟩
        rcases SyncChannel.send_cases hsender hreceiver x with htakes | hfull | ⟨c', hgive⟩
        · exact (hstuck.right.shared hitem htakes).elim
        · obtain ⟨y, hputs⟩ := SyncChannel.putsOut_item hreceiver hfull bound
          exact ⟨y, hputs.seq.seq⟩
        · obtain ⟨t', hitem⟩ := hitem
          exact ⟨x, _, .right (.both hitem hgive)⟩
      · have hdead := Bool.eq_false_iff.mpr hreceiver
        exact (hstuck.right.shared hhangup (SyncChannel.takesIn_hangup hsender hdead)).elim
  | waiting hitems heof hopen hall =>
      right; left
      -- what the network in front offers would be taken
      rcases hP.feeds hfirst hstuck.left hopen with ⟨x, hputs⟩ | ⟨-, hputs, -⟩ | hdry
      · exact (hstuck.shared hputs (hitems x).seq).elim
      · exact (hstuck.shared hputs heof.seq).elim
      · obtain ⟨heof, hdry, haccepts⟩ := hdry
        exact ⟨heof, fun hheld => by rw [hall hheld, hdry],
          fun x => (haccepts x).seq fun y => (hitems y).seq⟩
  | leavesInput hhangup hopen =>
      exact (hstuck.shared (hP.hangable hfirst hopen) hhangup.seq).elim
  | leavesOutput heof hopen =>
      exact (hstuck.right.shared heof (SyncChannel.takesIn_eof (hsender.mpr hopen))).elim
  | done hdone hclosed heof =>
      right; right
      -- the network in front was hung up, so it is done or passes this on
      refine ⟨by simpa [heof] using hsender, hdone, ?_⟩
      exact (hP.stops hfirst hstuck.left hclosed).imp_right fun ⟨hopen, htakes⟩ =>
        ⟨hopen, fun x => (htakes x).imp .seq .seq⟩

/-- **One more stage and one more channel.** -/
theorem Responsive.stage (hP : Responsive P B DoneP) (hT : Stage T B' DoneT) (bound : ℕ) :
    Responsive (P.seq (T.seq (syncChannel O bound))) (B.comp B')
      fun s => DoneP s.1 ∧ DoneT s.2.1 where
  implements := hP.implements.seq (hT.implements.channel bound)
  lives xs hdead := hdead.elim (hP.lives xs) (hT.lives _)
  feeds := by
    intro trace s hrun hstuck hopen
    obtain ⟨last, hlast, hout, hcases⟩ := hP.stage_cases hT hrun hstuck
    have hreceiver := (SyncChannel.alive_iff hlast).2.mpr (hout ▸ hopen)
    -- either the stage has an item for the channel, or it waits, or it has left
    rcases hcases with ⟨-, hitem⟩ | ⟨heof, hall, htakes⟩ | ⟨hsender, hdoneT, hfirst⟩
    · exact .inl hitem
    · by_cases hstored : s.2.2.stored = []
      · refine .inr (.inr ⟨heof, ?_, fun x => (htakes x).imp_right .inl⟩)
        rw [← hout, SyncChannel.forwarded hlast hreceiver hstored,
          hall (SyncChannel.hangup_notMem hlast hreceiver)]
        rfl
      · obtain ⟨x, hputs⟩ := SyncChannel.putsOut_item hreceiver hstored bound
        exact .inl ⟨x, hputs.seq.seq⟩
    · by_cases hstored : s.2.2.stored = []
      -- the stage has left, so the reader sees the end
      · have hputs : (P.seq (T.seq (syncChannel O bound))).PutsOut s .eof :=
          (SyncChannel.putsOut_eof hsender hreceiver hstored).seq.seq
        rcases hfirst with ⟨heof, hdoneP⟩ | ⟨heof, -⟩
        · exact .inr (.inl ⟨heof, hputs, hdoneP, hdoneT⟩)
        · -- the network cannot end its output before its input ended
          have himpl := hP.implements.seq (hT.implements.channel bound)
          have hlives : ∀ xs, ¬ (B.comp B').dies xs :=
            fun xs hdead => hdead.elim (hP.lives xs) (hT.lives _)
          exact absurd (himpl.mem_inputs hlives hrun hopen hputs) heof
      · obtain ⟨x, hputs⟩ := SyncChannel.putsOut_item hreceiver hstored bound
        exact .inl ⟨x, hputs.seq.seq⟩
  stops := by
    intro trace s hrun hstuck hclosed
    obtain ⟨last, hlast, hout, hcases⟩ := hP.stage_cases hT hrun hstuck
    rcases hcases with ⟨hreceiver, -⟩ | ⟨heof, -, htakes⟩ | ⟨-, hdoneT, ⟨heof, hdoneP⟩ | hopen⟩
    · exact absurd (hout ▸ hclosed) ((SyncChannel.alive_iff hlast).2.mp hreceiver)
    · exact .inr ⟨heof, htakes⟩
    · exact .inl ⟨heof, hdoneP, hdoneT⟩
    · exact .inr hopen
  endable hrun heof := by
    obtain ⟨first, rest, hfirst, -, hin, -⟩ := Component.runs_of_seq hrun
    exact (hP.endable hfirst (hin ▸ heof)).seq
  hangable hrun hopen := by
    obtain ⟨first, rest, -, hrest, -, -, hout⟩ := Component.runs_of_seq hrun
    obtain ⟨second, last, -, hlast, -, -, hout'⟩ := Component.runs_of_seq hrest
    have hreceiver := (SyncChannel.alive_iff hlast).2.mpr (hout' ▸ hout ▸ hopen)
    exact (SyncChannel.putsOut_hangup hreceiver).seq.seq
  closed := by
    intro trace s l s' hrun heof hstep
    obtain ⟨first, rest, hfirst, -, hin, -⟩ := Component.runs_of_seq hrun
    cases hstep with
    | left hstep => exact hP.closed hfirst (hin ▸ heof) hstep
    | right => rfl
    | both hstep => exact hP.closed hfirst (hin ▸ heof) hstep

/-- An item is received from the last channel, or the last stage hands it over. -/
theorem Component.Separate.of_item_step (hT : T.Separate)
    {s s' : (P.seq (T.seq (syncChannel O bound))).State} {x : O}
    (hstep : (P.seq (T.seq (syncChannel O bound))).step s (none, some (.item x)) s') :
    s'.1 = s.1 ∧ (s'.2.1 = s.2.1 ∨ ∃ y, T.step s.2.1 (none, some (.item y)) s'.2.1) := by
  cases hstep with
  | right hstep =>
      cases hstep with
      | right => exact ⟨rfl, .inl rfl⟩
      | both hfirst hsecond =>
          cases hsecond with
          | handOver => exact ⟨rfl, .inr ⟨_, hfirst⟩⟩
  | both _ hstep =>
      cases hstep with
      | both hfirst => cases hT hfirst

end Seq

/-! ## Somebody moves until the end -/

section Moves

variable {C : Component I O} {B : Behaviour I O} {Done : C.State → Prop}

/-- A network whose input ended and that is not done can move by itself, or an item can be
received from it. -/
theorem Responsive.moves (h : Responsive C B Done) {trace : List (C.State × Exchange I O)}
    {s : C.State} (hrun : C.Runs trace s) (heof : .eof ∈ inputs trace) (hdone : ¬ Done s) :
    ¬ C.Stuck s ∨ .hangup ∉ outputs trace ∧ ∃ x, C.PutsOut s (.item x) := by
  by_contra hnone
  rw [not_or, not_not, not_and, not_exists] at hnone
  obtain ⟨hstuck, hnone⟩ := hnone
  by_cases hopen : .hangup ∈ outputs trace
  · rcases h.stops hrun hstuck hopen with ⟨-, hends⟩ | ⟨hclosed, -⟩
    · exact hdone hends
    · exact hclosed heof
  · rcases h.feeds hrun hstuck hopen with ⟨x, hputs⟩ | ⟨-, -, hends⟩ | ⟨hclosed, -⟩
    · exact hnone hopen x hputs
    · exact hdone hends
    · exact hclosed heof

/-- A run in which nothing happens but that items are received. -/
def Drains (rest : List (C.State × Exchange I O)) : Prop :=
  ∀ p ∈ rest, ∃ x, p.2 = (none, some (.item x))

/-- **No deadlock.**  A network whose input ended and that is not done can move by itself, at
the latest when the items that wait at its end have been received. -/
theorem Responsive.exists_drained (h : Responsive C B Done) {cost price : ℕ} {rank : C.State → ℕ}
    (hrank : Ranked C cost price rank)
    (hkeeps : ∀ {s x s'}, C.step s (none, some (.item x)) s' → Done s' → Done s)
    {trace : List (C.State × Exchange I O)} {s : C.State} (hrun : C.Runs trace s)
    (heof : .eof ∈ inputs trace) (hdone : ¬ Done s) :
    ∃ rest t, Run C.step s rest t ∧ Drains rest ∧ (rest ≠ [] → .hangup ∉ outputs trace) ∧
      ¬ C.Stuck t := by
  induction hn : rank s using Nat.strong_induction_on generalizing trace s with
  | _ n ih =>
      -- every item that is received lowers the rank
      rcases h.moves hrun heof hdone with hmoves | ⟨hopen, x, s', hstep⟩
      · exact ⟨[], s, .nil, by simp [Drains], by simp, hmoves⟩
      · have hlt := hrank.lt hstep (by simp [Fails])
        obtain ⟨rest, t, hrest, hdrains, -, hmoves⟩ := ih (rank s')
          (by simp at hlt; omega) (hrun.snoc hstep) (by simpa using heof)
          (fun hends => hdone (hkeeps hstep hends)) rfl
        refine ⟨_, t, (Run.single hstep).append hrest, ?_, fun _ => hopen, hmoves⟩
        simpa [Drains] using hdrains

/-- **Every run comes to an end.**  The bound does not count that the end of the output is
received again. -/
theorem Responsive.exists_bound (h : Responsive C B Done) (hrank : HasRank C)
    {trace : List (C.State × Exchange I O)} {s : C.State} (hrun : C.Runs trace s)
    (heof : .eof ∈ inputs trace) :
    ∃ bound, ∀ rest t, Run C.step s rest t →
      (rest.countP fun p => !p.2.2.any Signal.isEof) ≤ bound := by
  obtain ⟨cost, rank, hrank⟩ := hrank 0
  refine ⟨rank s, fun rest t hrest => ?_⟩
  have hinputs : ∀ p ∈ rest, p.2.1 = none := by
    intro p hp
    obtain ⟨before, u, -, hbefore, hstep⟩ := hrest.exists_before hp
    refine h.closed (hrun.append hbefore) ?_ hstep
    rw [inputs_append]
    exact List.mem_append_left _ heof
  have hbounded := hrank.bounded hrest hinputs
  omega

end Moves

end RustCourse.Dataflow
