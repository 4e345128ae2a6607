import RustCourse.Lib.HashMap

/-!
# A table with an index

Two hash maps that have to stay consistent: a table, some rows of which have a key, and
an index that sends every key to the row that has it.  `Indexes` says that the index is
exact: it knows every keyed row, and every entry of it is the key of its row.  So no two
rows share a key (`Indexes.unique`).

The rules are the ways to change the two together: store a row under the key it had
(`store`), give a row a key nobody has (`assign`), and drop rows together with their keys
(`retain`).

The table may have rows without a key, and two rows that want one key are the case to be
excluded: `assign` asks that nobody has the key, and without that the index would lose the
row it had.
-/

namespace RustCourse.HashMap

variable {I V K : Type*} [DecidableEq I] [DecidableEq K]

/-! ## The invariant -/

/-- The index sends every key to the row that has it, and knows no other keys. -/
structure Indexes (key : V → Option K) (table : HashMap I V) (index : HashMap K I) : Prop where
  entry : ∀ i v k, table.lookup i = some v → key v = some k → index.lookup k = some i
  owner : ∀ k i, index.lookup k = some i → ∃ v, table.lookup i = some v ∧ key v = some k

namespace Indexes

variable {key : V → Option K} {table : HashMap I V} {index : HashMap K I} {i j : I} {v w : V}
  {k : K}

theorem empty : Indexes key (∅ : HashMap I V) (∅ : HashMap K I) := by
  constructor <;> simp

/-- No two rows have the same key. -/
theorem unique (h : Indexes key table index) (hv : table.lookup i = some v)
    (hw : table.lookup j = some w) (hkv : key v = some k) (hkw : key w = some k) : i = j :=
  Option.some.inj ((h.entry i v k hv hkv).symm.trans (h.entry j w k hw hkw))

/-- A row is stored that has the key the old one had; a row without a key may be new. -/
theorem store (h : Indexes key table index) (hkey : (table.lookup i).bind key = key v) :
    Indexes key (table.insert i v) index := by
  constructor
  · intro j w k hw hk
    rcases lookup_insert_eq_some.mp hw with ⟨rfl, rfl⟩ | ⟨-, hw⟩
    · obtain ⟨old, hold, holdk⟩ := Option.bind_eq_some_iff.mp (hkey.trans hk)
      exact h.entry j old k hold holdk
    · exact h.entry j w k hw hk
  · intro k j hj
    obtain ⟨w, hw, hk⟩ := h.owner k j hj
    by_cases hji : j = i
    · subst hji
      refine ⟨v, Finmap.lookup_insert _, ?_⟩
      rw [← hkey, hw]
      exact hk
    · exact ⟨w, lookup_insert_eq_some.mpr (.inr ⟨hji, hw⟩), hk⟩

/-- A row without a key gets one that nobody has. -/
theorem assign (h : Indexes key table index) (hkey : (table.lookup i).bind key = none)
    (hfree : k ∉ index) (hk : key v = some k) :
    Indexes key (table.insert i v) (index.insert k i) := by
  constructor
  · intro j w k' hw hk'
    rcases lookup_insert_eq_some.mp hw with ⟨rfl, rfl⟩ | ⟨-, hw⟩
    · obtain rfl : k' = k := Option.some.inj (hk'.symm.trans hk)
      exact Finmap.lookup_insert _
    · have hlookup := h.entry j w k' hw hk'
      have hne : k' ≠ k := by
        intro heq
        subst heq
        exact hfree (Finmap.mem_of_lookup_eq_some hlookup)
      rw [Finmap.lookup_insert_of_ne _ hne]
      exact hlookup
  · intro k' j hj
    rcases lookup_insert_eq_some.mp hj with ⟨rfl, rfl⟩ | ⟨-, hj⟩
    · exact ⟨v, Finmap.lookup_insert _, hk⟩
    · obtain ⟨w, hw, hk'⟩ := h.owner k' j hj
      -- the row that gets the key had none
      have hji : j ≠ i := by
        intro heq
        subst heq
        rw [hw] at hkey
        exact absurd (hk'.symm.trans hkey) (by simp)
      exact ⟨w, lookup_insert_eq_some.mpr (.inr ⟨hji, hw⟩), hk'⟩

/-- Rows are dropped, and their keys with them. -/
theorem retain (h : Indexes key table index) {keep : V → Bool} {index' : HashMap K I}
    (hgone : ∀ i v k, table.lookup i = some v → keep v = false → key v = some k →
      index'.lookup k = none)
    (hstays : ∀ k, (∀ i v, table.lookup i = some v → keep v = false → key v ≠ some k) →
      index'.lookup k = index.lookup k) :
    Indexes key (table.retain fun _ v => keep v) index' := by
  have hkept : ∀ i v, (table.retain fun _ v => keep v).lookup i = some v ↔
      table.lookup i = some v ∧ keep v = true := by
    intro i v
    rw [lookup_retain, Option.filter_eq_some_iff]
  constructor
  · intro i v k hv hk
    obtain ⟨hlookup, hkeep⟩ := (hkept i v).mp hv
    rw [hstays k fun j w hw hdropped hwk => ?_]
    · exact h.entry i v k hlookup hk
    · obtain rfl := h.unique hlookup hw hk hwk
      obtain rfl : v = w := Option.some.inj (hlookup.symm.trans hw)
      rw [hkeep] at hdropped
      cases hdropped
  · intro k i hi
    have hnobody : ∀ j w, table.lookup j = some w → keep w = false → key w ≠ some k := by
      intro j w hw hdropped hwk
      rw [hgone j w k hw hdropped hwk] at hi
      cases hi
    rw [hstays k hnobody] at hi
    obtain ⟨v, hv, hk⟩ := h.owner k i hi
    refine ⟨v, (hkept i v).mpr ⟨hv, ?_⟩, hk⟩
    by_contra hdropped
    exact hnobody i v hv (by simpa using hdropped) hk

end Indexes

end RustCourse.HashMap
