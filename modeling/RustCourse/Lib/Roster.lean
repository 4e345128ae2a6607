import Mathlib.Data.Set.Card

/-!
# Rosters

A roster is a list that names every member of a set, and maybe others, who were members
once.  Its length is what a program knows of the size of the set: an upper bound, and
exact if and only if nobody on the roster has left.

The rules say what may be done to the list: members may leave the set without leaving the list
(`mono`), a new member is put on it (`cons`), and one that is no member may be struck off
(`erase`).  So a program that counts its list counts the set too high, never too low.
-/

namespace RustCourse

/-! ## Rosters -/

/-- Every member of the set is on the list, nobody twice. -/
structure Roster {α : Type*} (roster : List α) (members : Set α) : Prop where
  nodup : roster.Nodup
  covers : ∀ a ∈ members, a ∈ roster

namespace Roster

variable {α : Type*} {roster : List α} {members fewer : Set α} {a : α}

theorem mono (h : Roster roster members) (hfewer : fewer ⊆ members) : Roster roster fewer :=
  ⟨h.nodup, fun a ha => h.covers a (hfewer ha)⟩

theorem nil_empty : Roster ([] : List α) ∅ :=
  ⟨List.nodup_nil, by simp⟩

/-- Somebody new joins. -/
theorem cons (h : Roster roster members) (hnew : a ∉ roster) {more : Set α}
    (hmore : ∀ b ∈ more, b = a ∨ b ∈ members) : Roster (a :: roster) more := by
  refine ⟨List.nodup_cons.mpr ⟨hnew, h.nodup⟩, fun b hb => ?_⟩
  rcases hmore b hb with rfl | hb
  · exact List.mem_cons_self
  · exact List.mem_cons_of_mem _ (h.covers b hb)

/-- Somebody who has left is struck off. -/
theorem erase [DecidableEq α] (h : Roster roster members) (hleft : a ∉ members) :
    Roster (roster.erase a) members := by
  refine ⟨h.nodup.erase a, fun b hb => ?_⟩
  have hne : b ≠ a := by
    rintro rfl
    exact hleft hb
  exact (List.mem_erase_of_ne hne).mpr (h.covers b hb)

section Counting

variable (h : Roster roster members)

include h

theorem encard_le : members.encard ≤ roster.length := by
  classical
  have hsubset : members ⊆ roster.toFinset := fun a ha => by simpa using h.covers a ha
  calc members.encard
      ≤ (roster.toFinset : Set α).encard := Set.encard_le_encard hsubset
    _ = roster.toFinset.card := Set.encard_coe_eq_coe_finsetCard _
    _ ≤ roster.length := by exact_mod_cast List.toFinset_card_le roster

theorem encard_lt (hmem : a ∈ roster) (hleft : a ∉ members) :
    members.encard + 1 ≤ roster.length := by
  classical
  have hpos := List.length_pos_of_mem hmem
  calc members.encard + 1
      ≤ (roster.erase a).length + 1 := by gcongr; exact (h.erase hleft).encard_le
    _ = roster.length := by
        rw [List.length_erase_of_mem hmem]
        exact_mod_cast Nat.sub_add_cancel hpos

/-- **The length of a roster is the size of the set** if and only if nobody has left. -/
theorem encard_eq_length_iff : members.encard = roster.length ↔ ∀ a ∈ roster, a ∈ members := by
  classical
  constructor
  · intro heq a hmem
    by_contra hleft
    have hlt := h.encard_lt hmem hleft
    rw [heq] at hlt
    have hle : roster.length + 1 ≤ roster.length := by exact_mod_cast hlt
    exact Nat.not_succ_le_self _ hle
  · intro hall
    have hset : members = roster.toFinset := by
      ext a
      simpa using ⟨h.covers a, hall a⟩
    rw [hset, Set.encard_coe_eq_coe_finsetCard, List.toFinset_card_of_nodup h.nodup]

end Counting

end Roster

end RustCourse
