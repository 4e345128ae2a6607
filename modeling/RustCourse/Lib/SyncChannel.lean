import RustCourse.Lib.Dataflow

/-!
# Bounded channels

`std::sync::mpsc::sync_channel(bound)` as a dataflow component: its input port is the
`SyncSender`, its output port the `Receiver`.  A send waits until there is room; with
bound 0 nothing is ever stored, and a send and a receive happen together.  Dropping an
end is a signal on that end's port, and so is the error that the other end sees: `recv`
fails (`eof`) when the sender is gone and nothing is stored, `send` fails (`hangup`)
when the receiver is gone.

## Strategy

The invariant is that what was sent is what was received and then what is stored, and that an
end of the stream is seen only with nothing stored behind it.  It is kept by each of the ways a
channel can step, and with it a channel `Implements` the behaviour that forwards
(`syncChannel_implements`).  So a channel behind a component changes nothing
(`Implements.channel`).
-/

namespace RustCourse.Dataflow

variable {α : Type}

/-! ## The channel -/

/-- The state of a channel: what is stored, and which ends are alive. -/
structure SyncChannel (α : Type) where
  stored : List α
  sender : Bool
  receiver : Bool

namespace SyncChannel

/-- A send, a receive, both at once, or an end is dropped or missed. -/
inductive Step (bound : ℕ) : SyncChannel α → Exchange α α → SyncChannel α → Prop
  | send {stored x} : stored.length < bound →
      Step bound ⟨stored, true, true⟩ (some (.item x), none) ⟨stored ++ [x], true, true⟩
  | recv {x stored sender} :
      Step bound ⟨x :: stored, sender, true⟩ (none, some (.item x)) ⟨stored, sender, true⟩
  /-- with bound 0 a send waits for a receive -/
  | handOver {x} : bound = 0 →
      Step bound ⟨[], true, true⟩ (some (.item x), some (.item x)) ⟨[], true, true⟩
  | sendFails {stored} : Step bound ⟨stored, true, false⟩ (some .hangup, none) ⟨stored, true, false⟩
  | recvFails : Step bound ⟨[], false, true⟩ (none, some .eof) ⟨[], false, true⟩
  | dropSender {stored receiver} :
      Step bound ⟨stored, true, receiver⟩ (some .eof, none) ⟨stored, false, receiver⟩
  | dropReceiver {stored sender} :
      Step bound ⟨stored, sender, true⟩ (none, some .hangup) ⟨[], sender, false⟩

/-! ## What is stored -/

section Stored

variable {bound : ℕ} {c c' : SyncChannel α} {x : α}

theorem stored_of_send (h : Step bound c (some (.item x), none) c') :
    c'.stored = c.stored ++ [x] := by
  cases h
  rfl

theorem stored_of_handOver (h : Step bound c (some (.item x), some (.item x)) c') :
    c.stored = [] ∧ c'.stored = [] := by
  cases h
  exact ⟨rfl, rfl⟩

theorem stored_of_recv (h : Step bound c (none, some (.item x)) c') :
    c.stored = x :: c'.stored := by
  cases h
  rfl

theorem stored_of_dropSender (h : Step bound c (some .eof, none) c') :
    c'.stored = c.stored := by
  cases h
  rfl

theorem stored_of_recvFails (h : Step bound c (none, some .eof) c') :
    c'.stored = c.stored := by
  cases h
  rfl

theorem stored_of_dropReceiver (h : Step bound c (none, some .hangup) c') :
    c'.stored = [] := by
  cases h
  rfl

end Stored

end SyncChannel

/-! ## The channel as a component -/

/-- `sync_channel(bound)`. -/
def syncChannel (α : Type) (bound : ℕ) : Component α α where
  State := SyncChannel α
  init := ⟨[], true, true⟩
  step := SyncChannel.Step bound

namespace SyncChannel

/-- While the receiver is alive, what came out and what is stored is what went in; once it
is gone, what came out is a prefix.  The rest says which end closed first. -/
structure Invariant (ins outs : List (Signal α)) (c : SyncChannel α) : Prop where
  flow : c.receiver = true → items outs ++ c.stored = items ins
  delivered : items outs <+: items ins
  sending : c.sender = true → ¬ Ended ins
  sent : c.sender = false → c.receiver = true → Ended ins
  receiving : c.receiver = true → ¬ HungUp outs
  received : c.receiver = false → HungUp outs ∨ Ended outs
  ended : Ended outs → items outs = items ins ∧ Ended ins ∧ c.sender = false
  hungUp : HungUp ins → HungUp outs

theorem Invariant.step {ins outs : List (Signal α)} {c c' : SyncChannel α} {bound : ℕ}
    {l : Exchange α α} (h : Invariant ins outs c) (hstep : Step bound c l c') :
    Invariant (ins ++ l.1.toList) (outs ++ l.2.toList) c' := by
  obtain ⟨flow, delivered, sending, sent, receiving, received, ended, hungUp⟩ := h
  cases hstep with
  | @send stored x =>
      have := delivered.trans (List.prefix_append _ [x])
      constructor <;> simp_all [← List.append_assoc]
  | @recv x stored sender =>
      have hinitial : items outs ++ [x] <+: items ins := ⟨stored, by simpa using flow rfl⟩
      -- while something is stored the receiver has not seen the end
      have hopen : ¬ Ended outs := fun h => by simp [(ended h).1] at flow
      constructor <;> simp_all
  | handOver => constructor <;> simp_all
  | sendFails => constructor <;> simp_all
  | recvFails => constructor <;> simp_all
  | dropSender =>
      have hclean := fun hreceiver hhungUp => receiving hreceiver (hungUp hhungUp)
      constructor <;> simp_all
  | dropReceiver =>
      have hclosed := Classical.em (Ended outs)
      constructor <;> simp_all [or_comm]

end SyncChannel

theorem syncChannel_invariant {bound : ℕ}
    {trace : List ((syncChannel α bound).State × Exchange α α)} {c : (syncChannel α bound).State}
    (hrun : (syncChannel α bound).Runs trace c) :
    SyncChannel.Invariant (inputs trace) (outputs trace) c := by
  refine hrun.invariantTrace (I := fun trace c =>
    SyncChannel.Invariant (inputs trace) (outputs trace) c) ?_ ?_
  · constructor <;> simp [syncChannel]
  · intro trace c l c' _ h hstep
    simpa using h.step hstep

theorem syncChannel_implements (bound : ℕ) :
    Implements (syncChannel α bound) Behaviour.forward where
  items hrun := (syncChannel_invariant hrun).delivered
  ended hrun hended :=
    let ⟨hitems, hclosed, _⟩ := (syncChannel_invariant hrun).ended hended
    ⟨hitems, .inl hclosed⟩
  hungUp hrun hhungUp := .inl ((syncChannel_invariant hrun).hungUp hhungUp)

/-- A channel at the end forwards what the component puts out. -/
theorem Implements.channel {I : Type} {C : Component I α} {B : Behaviour I α}
    (h : Implements C B) (bound : ℕ) : Implements (C.seq (syncChannel α bound)) B :=
  (h.seq (syncChannel_implements bound)).congr (fun _ => rfl)
    fun _ => by simp [Behaviour.comp, Behaviour.forward, Behaviour.total]

end RustCourse.Dataflow
