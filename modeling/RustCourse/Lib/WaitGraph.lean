import Mathlib.Data.Finite.Prod
import Mathlib.Data.Set.Finite.Basic
import Mathlib.Logic.Relation
import Mathlib.Order.WellFounded

/-!
# Wait graphs

Who waits for whom is a relation, and a deadlock is a cycle of it.  A step of a system
that lets one more party wait adds one edge; `Acyclic.insert` says when this is safe, and
`Acyclic.exists_sink` is what acyclicity is good for: among finitely many parties
somebody waits for nobody.

## Strategy

A cycle that is there after an edge was added and not before it goes through the new edge, so
it contains a path from the end of the edge to its beginning (`path_insert`).  Relations that
decrease a rank are acyclic at once (`of_rank`); this is the case where locks are always taken
in one order.
-/

namespace RustCourse.WaitGraph

open Relation

variable {α : Type*} {waits waits' : α → α → Prop}

/-! ## Acyclic relations -/

/-- Nobody waits, through others, for itself. -/
def Acyclic (waits : α → α → Prop) : Prop :=
  ∀ a, ¬ TransGen waits a a

namespace Acyclic

theorem mono (h : Acyclic waits) (hsub : ∀ x y, waits' x y → waits x y) : Acyclic waits' :=
  fun a ha => h a (TransGen.mono hsub a a ha)

/-- A rank that every wait decreases excludes cycles. -/
theorem of_rank {β : Type*} [Preorder β] (rank : α → β)
    (hrank : ∀ a b, waits a b → rank b < rank a) : Acyclic waits := by
  have hpath : ∀ a b, TransGen waits a b → rank b < rank a := by
    intro a b hab
    induction hab with
    | single hab => exact hrank _ _ hab
    | tail _ hbc ih => exact (hrank _ _ hbc).trans ih
  exact fun a ha => lt_irrefl _ (hpath a a ha)

/-- A path that may use the new edge `a → b` avoids it or goes to `a` and on from `b`,
provided there is no way back. -/
theorem path_insert {a b x y : α} (hback : ¬ ReflTransGen waits b a)
    (hsub : ∀ x y, waits' x y → waits x y ∨ x = a ∧ y = b) (h : TransGen waits' x y) :
    TransGen waits x y ∨ ReflTransGen waits x a ∧ ReflTransGen waits b y := by
  induction h with
  | single hxy =>
      rcases hsub _ _ hxy with hxy | ⟨rfl, rfl⟩
      · exact .inl (.single hxy)
      · exact .inr ⟨.refl, .refl⟩
  | tail _ hyz ih =>
      rcases hsub _ _ hyz with hyz | ⟨rfl, rfl⟩
      · exact ih.imp (·.tail hyz) fun hxy => ⟨hxy.1, hxy.2.tail hyz⟩
      · rcases ih with hxy | hxy
        · exact .inr ⟨hxy.to_reflTransGen, .refl⟩
        · exact absurd hxy.2 hback

/-- **One more edge** `a → b` closes no cycle if `b` does not wait for `a` already. -/
theorem insert {a b : α} (h : Acyclic waits) (hback : ¬ ReflTransGen waits b a)
    (hsub : ∀ x y, waits' x y → waits x y ∨ x = a ∧ y = b) : Acyclic waits' := by
  intro c hc
  rcases path_insert hback hsub hc with hc | ⟨hca, hbc⟩
  · exact h c hc
  · exact hback (hbc.trans hca)

/-- **Somebody waits for nobody** among finitely many. -/
theorem exists_sink {parties : Set α} (h : Acyclic waits) (hfinite : parties.Finite)
    (hnonempty : parties.Nonempty) : ∃ a ∈ parties, ∀ b ∈ parties, ¬ waits a b := by
  have : Finite parties := hfinite
  have htrans : IsTrans parties fun x y => TransGen waits y.1 x.1 :=
    ⟨fun _ _ _ hxy hyz => hyz.trans hxy⟩
  have hirrefl : Std.Irrefl fun x y : parties => TransGen waits y.1 x.1 := ⟨fun x => h x.1⟩
  have hwf : WellFounded fun x y : parties => TransGen waits y.1 x.1 :=
    Finite.wellFounded_of_trans_of_irrefl _
  obtain ⟨a, ha⟩ := hnonempty
  obtain ⟨sink, -, hsink⟩ := hwf.has_min Set.univ ⟨⟨a, ha⟩, trivial⟩
  exact ⟨sink.1, sink.2, fun b hb hwaits => hsink ⟨b, hb⟩ trivial (.single hwaits)⟩

end Acyclic

end RustCourse.WaitGraph
