import RustCourse.Lib.HashMap

/-!
# Registries

Parties register under a name in a table that they share.  `Owned` says that everybody who
is registered has the entry of its name.  A party that moves keeps this if it takes a name
nobody has and gives up only its own (`Owned.update`).  `Listed` says that whoever has an
entry did something to get it.

The two invariants are about opposite directions.  `Owned` goes from a party to its entry and
needs that names are not taken twice; `Listed` goes from an entry back to the party and needs
nothing, so it also holds where entries are left behind.
-/

namespace RustCourse.Registry

variable {K ι : Type*}

/-! ## Entries of those registered -/

/-- Everybody has the entry of the name it is registered under. -/
def Owned [DecidableEq K] (name : ι → Option K) (table : HashMap K ι) : Prop :=
  ∀ t k, name t = some k → table.lookup k = some t

variable [DecidableEq K]

/-- What party `t` does to the table when its name changes. -/
inductive Updated (name name' : ι → Option K) (table : HashMap K ι) (t : ι) :
    HashMap K ι → Prop
  | kept : (∀ k, name' t = some k → name t = some k) → Updated name name' table t table
  | inserted {k : K} : k ∉ table → (∀ k', name' t = some k' → k' = k) →
      Updated name name' table t (table.insert k t)
  | removed {k : K} : name t = some k → name' t = none →
      Updated name name' table t (table.erase k)

theorem Owned.update {name name' : ι → Option K} {table table' : HashMap K ι} {t : ι}
    (h : Owned name table) (hupdated : Updated name name' table t table')
    (hothers : ∀ u, u ≠ t → name' u = name u) : Owned name' table' := by
  intro u k hk
  by_cases hu : u = t
  · subst hu
    cases hupdated with
    | kept hkept => exact h u k (hkept k hk)
    | inserted _ hname => rw [hname k hk, Finmap.lookup_insert]
    | removed _ hnone => simp [hnone] at hk
  · have hentry : table.lookup k = some u := h u k (by rw [← hothers u hu, hk])
    cases hupdated with
    | kept => exact hentry
    | @inserted k' hfresh _ =>
        have hne : k ≠ k' := by
          rintro rfl
          exact hfresh (Finmap.mem_of_lookup_eq_some hentry)
        rw [Finmap.lookup_insert_of_ne _ hne, hentry]
    | @removed k' hname _ =>
        have hne : k ≠ k' := by
          rintro rfl
          exact hu (Option.some.inj (hentry.symm.trans (h t k hname)))
        rw [Finmap.lookup_erase_ne hne, hentry]

/-! ## Entries that were made -/

/-- Only parties that have entered stand in the table. -/
def Listed (entered : ι → Prop) (table : HashMap K ι) : Prop :=
  ∀ t k, table.lookup k = some t → entered t

theorem Listed.update {entered entered' : ι → Prop} {table table' : HashMap K ι} {t : ι}
    (h : Listed entered table) (hkept : ∀ u, entered u → entered' u)
    (htable : table' = table ∨ (∃ k, entered' t ∧ table' = table.insert k t) ∨
      ∃ k, table' = table.erase k) : Listed entered' table' := by
  intro u k hk
  rcases htable with rfl | ⟨k', ht, rfl⟩ | ⟨k', rfl⟩
  · exact hkept u (h u k hk)
  · rcases HashMap.lookup_insert_eq_some.mp hk with ⟨-, rfl⟩ | ⟨-, hk⟩
    · exact ht
    · exact hkept u (h u k hk)
  · exact hkept u (h u k (HashMap.lookup_erase_eq_some.mp hk).2)

end RustCourse.Registry
