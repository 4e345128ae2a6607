import Mathlib.Data.Finmap

/-!
# Hash maps with an arbitrary iteration order

`std::collections::HashMap` is a finite map whose iteration order the language
leaves open.  The map itself is Mathlib's `Finmap`; an iteration is a list that
`Enumerates` it, so a statement about every order is a statement about every such
list.  `retain` is `HashMap::retain` for a predicate that only reads its entry.

What is proved about an iteration never fixes the order: `exists_enumerates` says that there is
one, and the rules for `Enumerates` what every one of them has, namely each key once and with
its value.
-/

namespace RustCourse

/-! ## Iterations -/

/-- A `HashMap<K, V>`. -/
abbrev HashMap (K V : Type*) := Finmap fun _ : K => V

namespace HashMap

variable {K V : Type*}

/-- `items` lists every entry of the map once: one of the orders in which
iterating over it may produce the entries. -/
def Enumerates (m : HashMap K V) (items : List (K × V)) : Prop :=
  ((items.map fun item => ⟨item.1, item.2⟩ : List (Σ _ : K, V)) : Multiset (Σ _ : K, V)) =
    m.entries

instance [DecidableEq K] [DecidableEq V] (m : HashMap K V) (items : List (K × V)) :
    Decidable (Enumerates m items) := by
  unfold Enumerates
  infer_instance

theorem exists_enumerates (m : HashMap K V) : ∃ items, Enumerates m items := by
  obtain ⟨entries, hentries⟩ := Quot.exists_rep m.entries
  refine ⟨entries.map fun entry => (entry.1, entry.2), ?_⟩
  rw [Enumerates, ← hentries]
  simp [Function.comp_def]

namespace Enumerates

variable {m : HashMap K V} {items items' : List (K × V)} {k : K} {v : V}

theorem map_fst (h : Enumerates m items) :
    ((items.map Prod.fst : List K) : Multiset K) = m.keys.val := by
  have := congrArg Multiset.keys h
  simpa [Finmap.keys, Multiset.keys, Function.comp_def] using this

theorem nodup_keys (h : Enumerates m items) : (items.map Prod.fst).Nodup := by
  have := m.keys.nodup
  rw [← h.map_fst] at this
  exact this

theorem mem_keys (h : Enumerates m items) : k ∈ items.map Prod.fst ↔ k ∈ m := by
  rw [← Finmap.mem_keys, ← Finset.mem_val, ← h.map_fst, Multiset.mem_coe]

theorem mem_iff [DecidableEq K] (h : Enumerates m items) :
    (k, v) ∈ items ↔ m.lookup k = some v := by
  rw [Finmap.lookup_eq_some_iff, ← h]
  simp

/-- A list with different keys that knows the lookups of the map enumerates it. -/
theorem of_lookup [DecidableEq K] (hkeys : (items.map Prod.fst).Nodup)
    (hitems : ∀ k v, (k, v) ∈ items ↔ m.lookup k = some v) : Enumerates m items := by
  refine (Multiset.Nodup.ext ?_ m.nodup_entries).mpr ?_
  · exact (hkeys.of_map Prod.fst).map fun a b h => by cases a; cases b; simp_all
  · rintro ⟨k, v⟩
    rw [← Finmap.lookup_eq_some_iff, ← hitems]
    simp

theorem erase [DecidableEq K] (h : Enumerates m items) :
    Enumerates (Finmap.erase k m) (items.filter fun item => item.1 ≠ k) := by
  apply of_lookup
  · exact h.nodup_keys.sublist (List.filter_sublist.map Prod.fst)
  · intro l v
    rw [List.mem_filter, h.mem_iff]
    by_cases hl : l = k
    · subst hl
      simp
    · simp [hl, Finmap.lookup_erase_ne]

end Enumerates

/-! ## `HashMap::retain` -/

/-- `m.retain(keep)`. -/
def retain (m : HashMap K V) (keep : K → V → Bool) : HashMap K V where
  entries := m.entries.filter fun entry => keep entry.1 entry.2
  nodupKeys := Multiset.nodup_keys.mp <|
    Multiset.nodup_of_le (Multiset.map_le_map (Multiset.filter_le _ _))
      (Multiset.nodup_keys.mpr m.nodupKeys)

theorem lookup_retain [DecidableEq K] (m : HashMap K V) (keep : K → V → Bool) (k : K) :
    (m.retain keep).lookup k = (m.lookup k).filter (keep k) := by
  ext v
  rw [Finmap.lookup_eq_some_iff]
  simp [retain, Finmap.lookup_eq_some_iff, Option.filter_eq_some_iff]

/-! ## Entries after a change -/

variable [DecidableEq K] {m : HashMap K V} {k l : K} {v w : V}

/-- An entry of the map after an insert is the new one, or an old one under another key. -/
theorem lookup_insert_eq_some :
    (m.insert k v).lookup l = some w ↔ l = k ∧ v = w ∨ l ≠ k ∧ m.lookup l = some w := by
  by_cases hl : l = k
  · subst hl
    simp
  · simp [hl, Finmap.lookup_insert_of_ne _ hl]

/-- An entry of the map after a removal is an old one under another key. -/
theorem lookup_erase_eq_some : (m.erase k).lookup l = some w ↔ l ≠ k ∧ m.lookup l = some w := by
  by_cases hl : l = k
  · subst hl
    simp
  · simp [hl, Finmap.lookup_erase_ne hl]

/-- Different keys have different values also after a new value is inserted. -/
theorem injective_insert (h : ∀ k l v, m.lookup k = some v → m.lookup l = some v → k = l)
    (hnew : ∀ l, m.lookup l ≠ some w) {a b : K} (ha : (m.insert k w).lookup a = some v)
    (hb : (m.insert k w).lookup b = some v) : a = b := by
  rcases lookup_insert_eq_some.mp ha with ⟨rfl, rfl⟩ | ⟨-, ha⟩
  · rcases lookup_insert_eq_some.mp hb with ⟨rfl, -⟩ | ⟨-, hb⟩
    · rfl
    · exact absurd hb (hnew b)
  · rcases lookup_insert_eq_some.mp hb with ⟨-, rfl⟩ | ⟨-, hb⟩
    · exact absurd ha (hnew a)
    · exact h a b v ha hb

end HashMap

end RustCourse
