import Mathlib.Data.List.Basic

/-!
# Merging sorted runs

Bottom-up merge sort as a matter of lists.  A list is cut into runs of one width, of which
only the last may be shorter; a pass merges every run with an even number with the one
behind it (`mergeRuns`) and so doubles the width of sorted runs
(`SortedRuns.mergeRuns`).  A pass is stable, that is, it keeps the order of elements that
compare equal (`stable_mergeRuns`).

Elements are compared by an `Ord` in which different elements may compare equal, so that
stability says something.
-/

namespace RustCourse.Runs

open Std

variable {α : Type*} [Ord α]

/-! ## Orders and stability -/

/-- `a <= b` -/
def le (a b : α) : Bool :=
  (compare a b).isLE

/-- Every element is at most every later one. -/
def Sorted (xs : List α) : Prop :=
  xs.Pairwise fun a b => le a b = true

/-- The elements that compare equal to `x`, in their order. -/
def alike (x : α) (xs : List α) : List α :=
  xs.filter fun y => compare x y == .eq

/-- Elements that compare equal are in the same order in both lists. -/
def Stable (before after : List α) : Prop :=
  ∀ x, alike x after = alike x before

theorem Stable.refl (xs : List α) : Stable xs xs :=
  fun _ => rfl

theorem Stable.trans {xs ys zs : List α} (h : Stable xs ys) (h' : Stable ys zs) : Stable xs zs :=
  fun x => (h' x).trans (h x)

@[simp] theorem alike_append (x : α) (xs ys : List α) :
    alike x (xs ++ ys) = alike x xs ++ alike x ys :=
  List.filter_append ..

/-! ## Merging two lists -/

section Merge

variable [TransOrd α] {xs ys : List α}

theorem le_total (a b : α) : (le a b || le b a) = true := by
  unfold le
  rw [OrientedOrd.eq_swap (a := b)]
  cases compare a b <;> rfl

theorem le_trans (a b c : α) : le a b = true → le b c = true → le a c = true :=
  TransOrd.isLE_trans

theorem Sorted.merge (hxs : Sorted xs) (hys : Sorted ys) : Sorted (xs.merge ys le) :=
  List.pairwise_merge le_trans le_total xs ys hxs hys

/-- What is smaller than a sorted list is like nothing in it. -/
theorem alike_eq_nil {x a : α} (hxs : Sorted (a :: xs)) (hlt : compare x a = .lt) :
    alike x (a :: xs) = [] := by
  refine List.filter_eq_nil_iff.mpr fun z hz => ?_
  have hle : (compare a z).isLE := by
    rcases List.mem_cons.mp hz with rfl | hz
    · exact ReflOrd.isLE_rfl
    · exact List.rel_of_pairwise_cons hxs hz
  simp [TransCmp.lt_of_lt_of_isLE hlt hle]

/-- **Merging is stable**: of elements that compare equal those of the first list come first. -/
theorem alike_merge (hxs : Sorted xs) (hys : Sorted ys) (x : α) :
    alike x (xs.merge ys le) = alike x xs ++ alike x ys := by
  -- by induction on both lists, as they are merged
  induction xs generalizing ys with
  | nil => simp [alike]
  | cons a xs ihx =>
      induction ys with
      | nil => simp [alike]
      | cons b ys ihy =>
          rw [List.cons_merge_cons]
          split
          · next hle =>
              have ih := ihx hxs.tail hys
              simp only [alike, List.filter_cons] at ih ⊢
              rw [ih]
              split <;> simp
          · next hgt =>
              have ih := ihy hys.tail
              have hlt : compare b a = .lt := OrientedCmp.lt_of_not_isLE (by simpa [le] using hgt)
              by_cases hb : compare x b = .eq
              · -- `b` overtakes elements of the first list, but none that it is like
                have hnil : alike x (a :: xs) = [] :=
                  alike_eq_nil hxs (TransCmp.lt_of_eq_of_lt hb hlt)
                rw [hnil, List.nil_append] at ih ⊢
                simp only [alike] at ih ⊢
                simp [hb, ih]
              · simp only [alike] at ih ⊢
                simp [hb, ih]

end Merge

/-! ## Where merged elements come from -/

/-- A list interleaves two others: each of its elements, marked with where it comes from, and
the elements of either mark are one of the two lists. -/
structure Interleaves (xs ys merged : List α) (origins : List (α ⊕ α)) : Prop where
  merged : origins.map (Sum.elim id id) = merged
  left : origins.filterMap Sum.getLeft? = xs
  right : origins.filterMap Sum.getRight? = ys

/-- No element of the second list stands before one of the first that it compares equal to. -/
def LeftFirst (origins : List (α ⊕ α)) : Prop :=
  origins.Pairwise fun a b => ∀ x y, a = .inr x → b = .inl y → compare x y ≠ .eq

section Origins

variable {xs ys merged : List α} {origins : List (α ⊕ α)} {x : α}

namespace Interleaves

omit [Ord α]

theorem of_left (xs : List α) : Interleaves xs [] xs (xs.map .inl) where
  merged := by simp
  left := by simp [List.filterMap_map, Function.comp_def]
  right := by simp [List.filterMap_map, Function.comp_def]

theorem of_right (ys : List α) : Interleaves [] ys ys (ys.map .inr) where
  merged := by simp
  left := by simp [List.filterMap_map, Function.comp_def]
  right := by simp [List.filterMap_map, Function.comp_def]

theorem cons_left (h : Interleaves xs ys merged origins) :
    Interleaves (x :: xs) ys (x :: merged) (.inl x :: origins) := by
  obtain ⟨rfl, rfl, rfl⟩ := h
  exact ⟨rfl, rfl, rfl⟩

theorem cons_right (h : Interleaves xs ys merged origins) :
    Interleaves xs (x :: ys) (x :: merged) (.inr x :: origins) := by
  obtain ⟨rfl, rfl, rfl⟩ := h
  exact ⟨rfl, rfl, rfl⟩

theorem mem_left (h : Interleaves xs ys merged origins) (hx : .inl x ∈ origins) : x ∈ xs := by
  rw [← h.left]
  exact List.mem_filterMap.mpr ⟨.inl x, hx, rfl⟩

theorem perm (h : Interleaves xs ys merged origins) : merged.Perm (xs ++ ys) := by
  obtain ⟨rfl, rfl, rfl⟩ := h
  induction origins with
  | nil => exact .nil
  | cons origin origins ih =>
      cases origin with
      | inl x => exact ih.cons x
      | inr y => exact (ih.cons y).trans List.perm_middle.symm

theorem sublist_left (h : Interleaves xs ys merged origins) : xs.Sublist merged := by
  obtain ⟨rfl, rfl, rfl⟩ := h
  induction origins with
  | nil => exact .slnil
  | cons origin origins ih =>
      cases origin with
      | inl x => exact ih.cons_cons x
      | inr y => exact ih.cons y

theorem sublist_right (h : Interleaves xs ys merged origins) : ys.Sublist merged := by
  obtain ⟨rfl, rfl, rfl⟩ := h
  induction origins with
  | nil => exact .slnil
  | cons origin origins ih =>
      cases origin with
      | inl x => exact ih.cons x
      | inr y => exact ih.cons_cons y

end Interleaves

/-- **A merge interleaves**, and of elements that compare equal those of the first list come
first: what is taken from the second list is smaller than all that is left of the first. -/
theorem exists_interleaves_merge [TransOrd α] (hxs : Sorted xs) :
    ∃ origins, Interleaves xs ys (xs.merge ys le) origins ∧ LeftFirst origins := by
  induction xs generalizing ys with
  | nil =>
      refine ⟨ys.map .inr, by simpa using .of_right ys, ?_⟩
      exact List.pairwise_map.mpr (List.pairwise_of_forall fun _ _ _ _ _ hleft => nomatch hleft)
  | cons a xs ihx =>
      induction ys with
      | nil =>
          refine ⟨(a :: xs).map .inl, by simpa using .of_left (a :: xs), ?_⟩
          exact List.pairwise_map.mpr (List.pairwise_of_forall fun _ _ _ _ hright => nomatch hright)
      | cons b ys ihy =>
          rw [List.cons_merge_cons]
          split
          · obtain ⟨origins, hinterleaves, hfirst⟩ := @ihx (b :: ys) hxs.tail
            exact ⟨_, hinterleaves.cons_left, hfirst.cons fun _ _ _ _ hright => nomatch hright⟩
          · next hgt =>
              obtain ⟨origins, hinterleaves, hfirst⟩ := ihy
              have hlt : compare b a = .lt := OrientedCmp.lt_of_not_isLE (by simpa [le] using hgt)
              refine ⟨_, hinterleaves.cons_right, hfirst.cons ?_⟩
              rintro _ horigin _ y ⟨⟩ rfl heq
              have hnil := alike_eq_nil hxs hlt
              have hy : y ∈ alike b (a :: xs) :=
                List.mem_filter.mpr ⟨hinterleaves.mem_left horigin, by simp [heq]⟩
              rw [hnil] at hy
              exact nomatch hy

end Origins

/-! ## Runs -/

/-- Run number `k` of a list cut into runs of the given width. -/
def run (width k : ℕ) (xs : List α) : List α :=
  (xs.drop (k * width)).take width

/-- Every run of this width is sorted. -/
def SortedRuns (width : ℕ) (xs : List α) : Prop :=
  ∀ k, Sorted (run width k xs)

/-- One pass: runs are merged two by two. -/
def mergeRuns (width : ℕ) (hwidth : 0 < width) (xs : List α) : List α :=
  if xs = [] then []
  else
    (run width 0 xs).merge (run width 1 xs) le ++ mergeRuns width hwidth (xs.drop (2 * width))
termination_by xs.length
decreasing_by
  have := List.length_pos_of_ne_nil ‹_›
  simp only [List.length_drop]
  omega

section Pass

variable {width k : ℕ} {hwidth : 0 < width} {xs : List α}

omit [Ord α] in
@[simp] theorem run_nil : run width k ([] : List α) = [] := by
  simp [run]

omit [Ord α] in
theorem run_drop (j : ℕ) : run width k (xs.drop (j * width)) = run width (j + k) xs := by
  simp [run, List.drop_drop, Nat.add_mul, Nat.add_comm]

omit [Ord α] in
/-- The first two runs and the rest make up the list. -/
theorem runs_append (width : ℕ) (xs : List α) :
    run width 0 xs ++ run width 1 xs ++ xs.drop (2 * width) = xs := by
  have hrest : xs.drop (2 * width) = (xs.drop width).drop width := by
    rw [List.drop_drop, Nat.two_mul]
  simp only [run, hrest, Nat.zero_mul, Nat.one_mul, List.drop_zero, List.append_assoc,
    List.take_append_drop]

theorem mergeRuns_perm : (mergeRuns width hwidth xs).Perm xs := by
  induction xs using mergeRuns.induct width hwidth with
  | case1 =>
      rw [mergeRuns]
      simp
  | case2 xs hne ih =>
      rw [mergeRuns, if_neg hne]
      exact ((List.merge_perm_append le).append ih).trans (by rw [runs_append])

/-- A run of twice the width is made of two runs. -/
theorem run_mergeRuns :
    run (2 * width) k (mergeRuns width hwidth xs) =
      (run width (2 * k) xs).merge (run width (2 * k + 1) xs) le := by
  induction xs using mergeRuns.induct width hwidth generalizing k with
  | case1 =>
      rw [mergeRuns]
      simp
  | case2 xs hne ih =>
      rw [mergeRuns, if_neg hne]
      set first := (run width 0 xs).merge (run width 1 xs) le with hfirst
      have hlength : first.length = min (2 * width) xs.length := by
        simp only [hfirst, List.length_merge, run, List.length_take, List.length_drop]
        omega
      -- a pass over less than two runs leaves nothing for a second step
      have hshort : xs.length < 2 * width → mergeRuns width hwidth (xs.drop (2 * width)) = [] := by
        intro hshort
        rw [List.drop_eq_nil_of_le (Nat.le_of_lt hshort), mergeRuns, if_pos rfl]
      cases k with
      | zero =>
          rw [run, Nat.zero_mul, List.drop_zero]
          rcases Nat.lt_or_ge xs.length (2 * width) with hlt | hge
          · rw [hshort hlt, List.append_nil, List.take_of_length_le (by omega)]
          · rw [List.take_left' (by omega)]
      | succ k =>
          -- behind the first two runs the pass goes on with the rest
          have hdrop :
              (first ++ mergeRuns width hwidth (xs.drop (2 * width))).drop (1 * (2 * width)) =
                mergeRuns width hwidth (xs.drop (2 * width)) := by
            rcases Nat.lt_or_ge xs.length (2 * width) with hlt | hge
            · rw [hshort hlt, List.append_nil, List.drop_eq_nil_of_le (by omega)]
            · rw [Nat.one_mul, List.drop_left' (by omega)]
          rw [Nat.add_comm k 1, ← run_drop, hdrop, ih, run_drop, run_drop]
          congr 2 <;> omega

/-- **A pass doubles the width of sorted runs.** -/
theorem SortedRuns.mergeRuns [TransOrd α] (h : SortedRuns width xs) :
    SortedRuns (2 * width) (mergeRuns width hwidth xs) := by
  intro k
  rw [run_mergeRuns]
  exact (h (2 * k)).merge (h (2 * k + 1))

/-- **A pass is stable.** -/
theorem stable_mergeRuns [TransOrd α] (h : SortedRuns width xs) :
    Stable xs (mergeRuns width hwidth xs) := by
  intro x
  induction xs using Runs.mergeRuns.induct width hwidth with
  | case1 =>
      rw [Runs.mergeRuns]
      simp
  | case2 xs hne ih =>
      have hrest : SortedRuns width (xs.drop (2 * width)) := by
        intro k
        rw [run_drop]
        exact h (2 + k)
      rw [Runs.mergeRuns, if_neg hne, alike_append, alike_merge (h 0) (h 1), ih hrest,
        ← alike_append, ← alike_append, runs_append]

theorem sortedRuns_one (xs : List α) : SortedRuns 1 xs := by
  intro k
  unfold run
  cases xs.drop (k * 1) with
  | nil => exact .nil
  | cons x rest => exact List.pairwise_singleton _ x

/-- Once a run is as long as the list, the list is sorted. -/
theorem SortedRuns.sorted (h : SortedRuns width xs) (hlong : xs.length ≤ width) : Sorted xs := by
  have hrun := h 0
  rwa [run, Nat.zero_mul, List.drop_zero, List.take_of_length_le hlong] at hrun

end Pass

end RustCourse.Runs
