import Mathlib.Data.List.Basic
import Mathlib.Tactic.Basic

/-!
# Round trips, call by call

A decoder is called again and again, and every call answers from what is left of its
input.  `Calls answer input gots rest` says that successive calls on `input` answered
`gots` and left `rest`.

`Calls.filter_prefix` is the round trip rule.  Suppose that on the encoding `wire msgs` of
a list a call may idle, or return the first of the messages and leave the encoding of the
others, or find the end if there are none.  Then any number of calls return the messages
in order, each once, and after that nothing but the end.  `Calls.rest_eq` is what they
leave, and `Calls.next_eq` what the next call returns unless it idles.

## Strategy

`Decodes` is what one call has to meet, and `filter_prefix` is an induction over the calls: a
call that idles leaves the encoding as it was, one that returns a message leaves that of the
others.  What successive calls have answered fixes what they left (`rest_eq`), since the
messages that were returned are the front of the list.
-/

namespace RustCourse.Codec

variable {ι ρ T : Type*} {answer : ι → ρ → ι → Prop} {input rest : ι} {gots : List ρ}

/-! ## Calls -/

/-- Successive calls, with what they return. -/
inductive Calls (answer : ι → ρ → ι → Prop) : ι → List ρ → ι → Prop
  | nil (input : ι) : Calls answer input [] input
  | cons {input middle rest : ι} {got : ρ} {gots : List ρ} : answer input got middle →
      Calls answer middle gots rest → Calls answer input (got :: gots) rest

/-- What a call does on the encoding of the messages `msgs`. -/
inductive Decodes (wire : List T → ι) (item : T → ρ) (done : ρ) (idle : ρ → Bool) :
    List T → ρ → ι → Prop
  | idles {msgs got} : idle got = true → Decodes wire item done idle msgs got (wire msgs)
  | item {msg msgs} : Decodes wire item done idle (msg :: msgs) (item msg) (wire msgs)
  | done : Decodes wire item done idle [] done (wire [])

/-! ## The round trip -/

/-- **The round trip rule.** -/
theorem Calls.filter_prefix (wire : List T → ι) (item : T → ρ) (done : ρ) (idle : ρ → Bool)
    {fits : T → Prop} {msgs : List T} (hcalls : Calls answer (wire msgs) gots rest)
    (hfits : ∀ msg ∈ msgs, fits msg) (hitem : ∀ msg, idle (item msg) = false)
    (hdone : idle done = false)
    (hdecodes : ∀ msgs got rest, (∀ msg ∈ msgs, fits msg) → answer (wire msgs) got rest →
      Decodes wire item done idle msgs got rest) :
    gots.filter (fun got => !idle got) <+: msgs.map item ++ List.replicate gots.length done := by
  -- one more call may find the end once more
  have hlonger : ∀ (msgs : List T) (n : ℕ), msgs.map item ++ List.replicate n done <+:
      msgs.map item ++ List.replicate (n + 1) done := by
    intro msgs n
    rw [List.replicate_succ', ← List.append_assoc]
    exact List.prefix_append _ _
  induction gots generalizing msgs with
  | nil => exact List.nil_prefix
  | cons got gots ih =>
      cases hcalls with
      | cons hanswer hcalls =>
          cases hdecodes msgs got _ hfits hanswer with
          | idles hidle =>
              rw [List.filter_cons_of_neg (by simp [hidle])]
              exact (ih hcalls hfits).trans (hlonger msgs gots.length)
          | @item msg msgs =>
              have hrest := ih hcalls fun other hmem => hfits other (List.mem_cons_of_mem _ hmem)
              rw [List.filter_cons_of_pos (by simp [hitem])]
              apply List.cons_prefix_cons.mpr
              exact ⟨rfl, hrest.trans (hlonger msgs gots.length)⟩
          | done =>
              rw [List.filter_cons_of_pos (by simp [hdone])]
              apply List.cons_prefix_cons.mpr
              exact ⟨rfl, ih hcalls hfits⟩

/-- Results that reach beyond the messages are all of them, and then the end again and again. -/
theorem exists_eq_append_replicate {items : List ρ} {done : ρ} {n : ℕ}
    (h : gots <+: items ++ List.replicate n done) (hlong : items.length ≤ gots.length) :
    ∃ m, gots = items ++ List.replicate m done := by
  refine ⟨min (gots.length - items.length) n, ?_⟩
  conv_lhs => rw [List.prefix_iff_eq_take.mp h]
  rw [List.take_append, List.take_of_length_le hlong, List.take_replicate]

/-! ## What is left -/

/-- What is left is the encoding of the messages that have not been returned. -/
theorem Calls.rest_eq (wire : List T → ι) (item : T → ρ) (done : ρ) (idle : ρ → Bool)
    {fits : T → Prop} {msgs : List T} (hcalls : Calls answer (wire msgs) gots rest)
    (hfits : ∀ msg ∈ msgs, fits msg) (hitem : ∀ msg, idle (item msg) = false)
    (hdecodes : ∀ msgs got rest, (∀ msg ∈ msgs, fits msg) → answer (wire msgs) got rest →
      Decodes wire item done idle msgs got rest) :
    rest = wire (msgs.drop (gots.filter fun got => !idle got).length) := by
  induction gots generalizing msgs with
  | nil =>
      cases hcalls
      rfl
  | cons got gots ih =>
      cases hcalls with
      | cons hanswer hcalls =>
          cases hdecodes msgs got _ hfits hanswer with
          | idles hidle =>
              rw [List.filter_cons_of_neg (by simp [hidle])]
              exact ih hcalls hfits
          | @item msg msgs =>
              rw [List.filter_cons_of_pos (by simp [hitem])]
              exact ih hcalls fun other hmem => hfits other (List.mem_cons_of_mem _ hmem)
          | done =>
              have hrest := ih hcalls hfits
              rwa [List.drop_nil] at hrest ⊢

/-- A call that does not idle returns the first message that has not been returned yet, and
the end if there is none. -/
theorem Calls.next_eq (wire : List T → ι) (item : T → ρ) (done : ρ) (idle : ρ → Bool)
    {fits : T → Prop} {msgs : List T} (hcalls : Calls answer (wire msgs) gots rest)
    (hfits : ∀ msg ∈ msgs, fits msg) (hitem : ∀ msg, idle (item msg) = false)
    (hdecodes : ∀ msgs got rest, (∀ msg ∈ msgs, fits msg) → answer (wire msgs) got rest →
      Decodes wire item done idle msgs got rest) {next : ρ} {left : ι}
    (hnext : answer rest next left) (hidle : idle next = false) :
    next = ((msgs.map item)[(gots.filter fun got => !idle got).length]?).getD done := by
  rw [hcalls.rest_eq wire item done idle hfits hitem hdecodes] at hnext
  have hdecodes := hdecodes _ _ _ (fun msg hmem => hfits msg (List.mem_of_mem_drop hmem)) hnext
  generalize hreturned : (gots.filter fun got => !idle got).length = k at hdecodes
  rw [← Nat.add_zero k, ← List.getElem?_drop, ← List.map_drop]
  generalize msgs.drop k = later at hdecodes ⊢
  cases hdecodes with
  | idles hidles => exact absurd hidles (by simp [hidle])
  | item => rfl
  | done => rfl

end RustCourse.Codec
