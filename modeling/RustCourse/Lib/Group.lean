import Mathlib.Data.Finset.Erase
import Mathlib.Data.Finset.Insert
import Mathlib.Logic.Function.Basic
import Mathlib.Tactic.Basic

/-!
# Groups whose members are told things

The abstract object that a chat server implements: a set of members, each with an inbox
of everything it was told since it joined.  An operation is atomic.  A member joins and is
greeted, a member leaves, something is said of which every member hears its own part, or
the group is dissolved.  What is said may depend on who is a member.  This file names no
program.

An implementation lets its operations overlap, hands messages over in its own time and
keeps the answers to a member apart from what others send to it.  It is compared with the
group that its operations lead to in one order, so everything that every member is told
follows that order: `members_hear_alike` is what two members can conclude from it.
-/

namespace RustCourse.Groups

variable {K M : Type*}

/-! ## Groups and operations -/

/-- The members, and what each of them was told since it joined. -/
structure Group (K M : Type*) where
  members : Finset K
  inbox : K → List M

/-- What happens to a group. -/
inductive Op (K M : Type*)
  | join (member : K) (greeting : List M)
  | leave (member : K)
  /-- `hears members member` is what a member hears when these are the members -/
  | tell (hears : Finset K → K → List M)
  | dissolve

namespace Group

/-- Nobody is a member. -/
def empty : Group K M := ⟨∅, fun _ => []⟩

@[simp] theorem empty_members : (empty : Group K M).members = ∅ := rfl

variable [DecidableEq K]

/-- The group after one operation. -/
def apply (g : Group K M) : Op K M → Group K M
  | .join member greeting =>
      ⟨insert member g.members, Function.update g.inbox member greeting⟩
  | .leave member => ⟨g.members.erase member, Function.update g.inbox member []⟩
  | .tell hears =>
      ⟨g.members, fun member =>
        if member ∈ g.members then g.inbox member ++ hears g.members member else []⟩
  | .dissolve => empty

/-- The group after a list of operations. -/
def after (g : Group K M) (ops : List (Op K M)) : Group K M :=
  ops.foldl apply g

variable {g : Group K M} {ops ops' : List (Op K M)} {k j : K}

@[simp] theorem after_nil : g.after [] = g := rfl

@[simp] theorem after_cons (op : Op K M) : g.after (op :: ops) = (g.apply op).after ops := rfl

@[simp] theorem after_append : g.after (ops ++ ops') = (g.after ops).after ops' :=
  List.foldl_append ..

/-! ## One operation -/

@[simp] theorem join_members (greeting : List M) :
    (g.apply (.join j greeting)).members = insert j g.members := rfl

theorem join_inbox (greeting : List M) : (g.apply (.join k greeting)).inbox k = greeting :=
  Function.update_self ..

theorem join_inbox_ne (greeting : List M) (h : k ≠ j) :
    (g.apply (.join j greeting)).inbox k = g.inbox k :=
  Function.update_of_ne h ..

@[simp] theorem leave_members : (g.apply (.leave j)).members = g.members.erase j := rfl

theorem leave_inbox_ne (h : k ≠ j) : (g.apply (.leave j)).inbox k = g.inbox k :=
  Function.update_of_ne h ..

@[simp] theorem tell_members (hears : Finset K → K → List M) :
    (g.apply (.tell hears)).members = g.members := rfl

theorem tell_inbox (hears : Finset K → K → List M) (h : k ∈ g.members) :
    (g.apply (.tell hears)).inbox k = g.inbox k ++ hears g.members k :=
  if_pos h

/-! ## What a member hears while it stays -/

/-- The operation is not about the membership of `k`. -/
def Keeps (k : K) : Op K M → Prop
  | .join member _ => member ≠ k
  | .leave member => member ≠ k
  | .tell _ => True
  | .dissolve => False

/-- What `k` hears of the operations, one after the other. -/
def heard (k : K) : Group K M → List (Op K M) → List M
  | _, [] => []
  | g, .tell hears :: ops => hears g.members k ++ heard k (g.apply (.tell hears)) ops
  | g, op :: ops => heard k (g.apply op) ops

theorem apply_of_keeps {op : Op K M} (hkeeps : Keeps k op) (hk : k ∈ g.members) :
    k ∈ (g.apply op).members ∧ (g.apply op).inbox k = g.inbox k ++ heard k g [op] := by
  cases op with
  | join member greeting =>
      refine ⟨Finset.mem_insert_of_mem hk, ?_⟩
      rw [join_inbox_ne greeting (Ne.symm hkeeps)]
      simp [heard]
  | leave member =>
      refine ⟨Finset.mem_erase.mpr ⟨Ne.symm hkeeps, hk⟩, ?_⟩
      rw [leave_inbox_ne (Ne.symm hkeeps)]
      simp [heard]
  | tell hears =>
      refine ⟨hk, ?_⟩
      rw [tell_inbox hears hk]
      simp [heard]
  | dissolve => exact hkeeps.elim

theorem heard_cons (op : Op K M) (ops : List (Op K M)) :
    heard k g (op :: ops) = heard k g [op] ++ heard k (g.apply op) ops := by
  cases op <;> simp [heard]

/-- Nothing is heard when nothing is said. -/
theorem heard_of_silent (hsilent : ∀ op ∈ ops, ∀ hears, op ≠ .tell hears) : heard k g ops = [] := by
  induction ops generalizing g with
  | nil => rfl
  | cons op ops ih =>
      have hrest := fun g' : Group K M =>
        ih (g := g') fun later hlater => hsilent later (by simp [hlater])
      cases op with
      | tell hears => exact absurd rfl (hsilent _ (by simp) hears)
      | _ => exact hrest _

/-- **A member that stays** finds in its inbox what it found before and then what it hears. -/
theorem after_of_keeps (hkeeps : ∀ op ∈ ops, Keeps k op) (hk : k ∈ g.members) :
    k ∈ (g.after ops).members ∧ (g.after ops).inbox k = g.inbox k ++ heard k g ops := by
  induction ops generalizing g with
  | nil => exact ⟨hk, by simp [heard]⟩
  | cons op ops ih =>
      obtain ⟨hmem, hinbox⟩ := apply_of_keeps (hkeeps op (by simp)) hk
      obtain ⟨hafter, hheard⟩ := ih (fun later hlater => hkeeps later (by simp [hlater])) hmem
      refine ⟨hafter, ?_⟩
      rw [after_cons, hheard, hinbox, heard_cons op ops, List.append_assoc]

/-! ## Two members -/

/-- What `j` and `k` hear alike of the operations, one after the other. -/
def heardAlike [DecidableEq M] (j k : K) : Group K M → List (Op K M) → List M
  | _, [] => []
  | g, .tell hears :: ops =>
      (if hears g.members j = hears g.members k then hears g.members j else []) ++
        heardAlike j k (g.apply (.tell hears)) ops
  | g, op :: ops => heardAlike j k (g.apply op) ops

theorem heardAlike_append [DecidableEq M] :
    heardAlike j k g (ops ++ ops') = heardAlike j k g ops ++ heardAlike j k (g.after ops) ops' := by
  induction ops generalizing g with
  | nil => rfl
  | cons op ops ih => cases op <;> simp [heardAlike, ih]

theorem heardAlike_sublist [DecidableEq M] :
    (heardAlike j k g ops).Sublist (heard j g ops) ∧
      (heardAlike j k g ops).Sublist (heard k g ops) := by
  induction ops generalizing g with
  | nil => exact ⟨.refl _, .refl _⟩
  | cons op ops ih =>
      cases op with
      | join | leave | dissolve => exact ih
      | tell hears =>
          simp only [heardAlike, heard]
          split
          · next halike =>
              refine ⟨(List.Sublist.refl _).append ih.1, ?_⟩
              rw [halike]
              exact (List.Sublist.refl _).append ih.2
          · exact ⟨(List.nil_sublist _).append ih.1, (List.nil_sublist _).append ih.2⟩

/-- **Two members that stay** hear in one order what they hear alike. -/
theorem members_hear_alike [DecidableEq M] (hkeeps : ∀ op ∈ ops, Keeps j op ∧ Keeps k op)
    (hj : j ∈ g.members) (hk : k ∈ g.members) :
    ∃ first second, (g.after ops).inbox j = g.inbox j ++ first ∧
      (g.after ops).inbox k = g.inbox k ++ second ∧
      (heardAlike j k g ops).Sublist first ∧ (heardAlike j k g ops).Sublist second :=
  ⟨heard j g ops, heard k g ops, (after_of_keeps (fun op h => (hkeeps op h).1) hj).2,
    (after_of_keeps (fun op h => (hkeeps op h).2) hk).2, heardAlike_sublist.1,
    heardAlike_sublist.2⟩

end Group

end RustCourse.Groups
