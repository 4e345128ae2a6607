import RustCourse.Lesson03.MergeSort

/-!
# Merge sort sorts

Both merges of lesson 03 compute the merge of two lists, whether these are sorted or not:
`merge_slices` into a new vector (`mergeSlices_eq`), `in_place_merge` inside a slice, of
which it leaves the rest alone (`inPlaceMerge_eq`).  The invariant of the in-place loop is
that the slice consists of what is merged already, what is left of the left part, what is
left of the right part, and the rest; a rotation takes the head of the third to the end of
the first.

A pass of `merge_sort` then is a pass over runs (`mergePass_eq`), and the bound on the
length of the slice is what keeps `i + 2 * width` and `width * 2` inside a `usize`.
-/

namespace RustCourse.Lesson03

open Runs Std

variable {T : Type} [Ord T]

/-! ## Both merges -/

/-- **The loop of `in_place_merge`** merges what is left of the two parts. -/
theorem inPlaceMergeLoop_eq (done left right rest : List T) {i j k : ℕ} (hi : i = done.length)
    (hj : j = i + left.length) (hk : k = j + right.length) (hfits : k < 2 ^ 64) :
    inPlaceMergeLoop (done ++ left ++ right ++ rest) i j k =
      some (done ++ left.merge right le ++ rest) := by
  -- by induction on both parts; what is merged and the rest are fixed
  induction left generalizing done right i j k with
  | nil =>
      rw [inPlaceMergeLoop, if_neg (by simp [hj])]
      simp
  | cons a left ihLeft =>
      induction right generalizing done i j k with
      | nil =>
          rw [inPlaceMergeLoop, if_neg (by simp [hk])]
          simp
      | cons b right ihRight =>
          rw [List.length_cons] at hj hk
          have hleft : (done ++ (a :: left) ++ (b :: right) ++ rest)[i]? = some a := by
            simp [hi]
          have hright : (done ++ (a :: left) ++ (b :: right) ++ rest)[j]? = some b := by
            have hlength : j = (done ++ (a :: left)).length := by simp [hi, hj]
            simp [hlength]
          rw [inPlaceMergeLoop, if_pos ⟨by omega, by omega⟩, hleft, hright, List.cons_merge_cons]
          simp only [Option.bind_eq_bind, Option.bind_some]
          by_cases hgt : compare a b = .gt
          · -- the head of the right part is rotated in front of the left part
            have hrotated : rotateRight (done ++ (a :: left) ++ (b :: right) ++ rest) i (j + 1) =
                some (done ++ [b] ++ (a :: left) ++ right ++ rest) := by
              have hmoved := rotateRight_eq done (a :: left) (right ++ rest) b
              rw [List.length_cons, ← hi, ← hj] at hmoved
              simpa using hmoved
            have hle : le a b = false := by simp [le, hgt]
            have ih := ihRight (done ++ [b]) (i := i + 1) (j := j + 1) (k := k) (by simp [hi])
              (by rw [List.length_cons]; omega) (by omega) hfits
            simp only [if_pos hgt, fits_eq (show j + 1 < 2 ^ 64 by omega), hrotated,
              fits_eq (show i + 1 < 2 ^ 64 by omega), Option.bind_some]
            simpa [hle] using ih
          -- the head of the left part is in place
          · have hle : le a b = true := by rwa [le, Ordering.isLE_iff_ne_gt]
            have ih := ihLeft (done ++ [a]) (b :: right) (i := i + 1) (j := j) (k := k)
              (by simp [hi]) (by omega) (by simp [hk]) hfits
            simpa [hgt, hle, fits_eq (show i + 1 < 2 ^ 64 by omega)] using ih

theorem inPlaceMerge_eq (done left right rest : List T)
    (hfits : done.length + left.length + right.length < 2 ^ 64) :
    inPlaceMerge (done ++ left ++ right ++ rest) done.length (done.length + left.length)
        (done.length + left.length + right.length) =
      some (done ++ left.merge right le ++ rest) :=
  inPlaceMergeLoop_eq done left right rest rfl rfl rfl hfits

/-- **The loop of `merge_slices`** appends the merge of what is left of the two slices. -/
theorem mergeSlicesLoop_eq (left right result : List T) {leftIdx rightIdx : ℕ}
    (hleft : leftIdx ≤ left.length) (hright : rightIdx ≤ right.length)
    (hfits : left.length + right.length < 2 ^ 64) :
    mergeSlicesLoop left right result leftIdx rightIdx =
      some (result ++ (left.drop leftIdx).merge (right.drop rightIdx) le) := by
  -- by induction on what is left of the two slices
  induction hsteps : left.length - leftIdx + (right.length - rightIdx)
    generalizing result leftIdx rightIdx with
  | zero =>
      rw [mergeSlicesLoop, if_neg (by omega), if_pos ⟨hleft, hright⟩,
        List.drop_eq_nil_of_le (by omega), List.drop_eq_nil_of_le (by omega)]
      simp
  | succ steps ih =>
      by_cases hmore : leftIdx < left.length ∧ rightIdx < right.length
      · obtain ⟨hl, hr⟩ := hmore
        rw [mergeSlicesLoop, if_pos ⟨hl, hr⟩, List.getElem?_eq_getElem hl,
          List.getElem?_eq_getElem hr, List.drop_eq_getElem_cons hl,
          List.drop_eq_getElem_cons hr, List.cons_merge_cons]
        simp only [Option.bind_eq_bind, Option.bind_some]
        by_cases hle : (compare left[leftIdx] right[rightIdx]).isLE
        · have ih := ih (result ++ [left[leftIdx]]) (show leftIdx + 1 ≤ left.length by omega)
            hright (by omega)
          have hle' : le left[leftIdx] right[rightIdx] = true := hle
          rw [if_pos hle, if_pos hle', fits_eq (by omega), Option.bind_some, ih,
            ← List.drop_eq_getElem_cons hr, List.append_assoc, List.singleton_append]
        · have ih := ih (result ++ [right[rightIdx]]) hleft
            (show rightIdx + 1 ≤ right.length by omega) (by omega)
          rw [if_neg hle, if_neg (by simpa [le] using hle), fits_eq (by omega), Option.bind_some,
            ih, ← List.drop_eq_getElem_cons hl, List.append_assoc, List.singleton_append]
      · rw [mergeSlicesLoop, if_neg hmore, if_pos ⟨hleft, hright⟩]
        -- one of them is used up, and the other one is copied
        rcases Nat.lt_or_ge leftIdx left.length with hl | hl
        · have hnil : right.drop rightIdx = [] := List.drop_eq_nil_of_le (by omega)
          simp [hnil]
        · have hnil : left.drop leftIdx = [] := List.drop_eq_nil_of_le hl
          simp [hnil]

theorem mergeSlices_eq (left right : List T) (hfits : left.length + right.length < 2 ^ 64) :
    mergeSlices left right = some (left.merge right le) := by
  rw [mergeSlices, fits_eq hfits]
  exact mergeSlicesLoop_eq left right [] (Nat.zero_le _) (Nat.zero_le _) hfits

/-! ## Merging into a new vector -/

/-- **`merge_slices` merges.**  From two sorted slices it makes a sorted vector that contains
both in their order, and of elements that compare equal those of `left` come first. -/
theorem mergeSlices_merges [TransOrd T] {left right : List T} (hleft : Sorted left)
    (hright : Sorted right) (hfits : left.length + right.length < 2 ^ 64) :
    ∃ merged, mergeSlices left right = some merged ∧ Sorted merged ∧
      merged.Perm (left ++ right) ∧ left.Sublist merged ∧ right.Sublist merged ∧
      ∃ origins, Interleaves left right merged origins ∧ LeftFirst origins := by
  obtain ⟨origins, hinterleaves, hfirst⟩ := @exists_interleaves_merge T _ left right _ hleft
  exact ⟨left.merge right le, mergeSlices_eq left right hfits, hleft.merge hright,
    hinterleaves.perm, hinterleaves.sublist_left, hinterleaves.sublist_right, origins,
    hinterleaves, hfirst⟩

theorem mergeSlices_merges_duplicates :
    ∃ merged, mergeSlices [1, 1, 3] [1, 3, 4] = some merged ∧ Sorted merged ∧
      merged.Perm ([1, 1, 3] ++ [1, 3, 4]) ∧ [1, 1, 3].Sublist merged ∧
      [1, 3, 4].Sublist merged ∧
      ∃ origins, Interleaves [1, 1, 3] [1, 3, 4] merged origins ∧ LeftFirst origins :=
  mergeSlices_merges (by simp [Sorted, le]; decide) (by simp [Sorted, le]; decide) (by decide)

/-- **The two merges agree** on all slices, sorted or not, whose concatenation is a slice. -/
theorem mergeSlices_eq_inPlaceMerge (left right : List T)
    (hfits : left.length + right.length < 2 ^ 64) :
    ∃ merged, mergeSlices left right = some merged ∧
      inPlaceMerge (left ++ right) 0 left.length (left.length + right.length) = some merged := by
  refine ⟨left.merge right le, mergeSlices_eq left right hfits, ?_⟩
  have hmerged := inPlaceMerge_eq [] left right [] (by simpa using hfits)
  simpa using hmerged

theorem mergeSlices_eq_inPlaceMerge_duplicates :
    ∃ merged, mergeSlices [1, 4, 3] [1, 3] = some merged ∧
      inPlaceMerge ([1, 4, 3] ++ [1, 3]) 0 3 (3 + 2) = some merged :=
  mergeSlices_eq_inPlaceMerge [1, 4, 3] [1, 3] (by decide)

/-! ## Merge sort -/

/-- The inner loop merges two runs. -/
theorem inPlaceMerge_runs {width n : ℕ} (done todo : List T) (hn : n = done.length + todo.length)
    (hfits : n < 2 ^ 62) :
    inPlaceMerge (done ++ todo) done.length (done.length + width)
        (if done.length + 2 * width > n then n else done.length + 2 * width) =
      some (done ++ ((run width 0 todo).merge (run width 1 todo) le ++ todo.drop (2 * width))) := by
  rcases Nat.lt_or_ge width todo.length with hlong | hshort
  -- there are two runs, of which the second may be short
  · have hfirst : (run width 0 todo).length = width := by
      simp only [run, List.length_take, List.length_drop]
      omega
    have hsecond : (run width 1 todo).length = min width (todo.length - width) := by
      simp only [run, List.length_take, List.length_drop, Nat.one_mul]
    have hmerged := inPlaceMerge_eq done (run width 0 todo) (run width 1 todo)
      (todo.drop (2 * width)) (by omega)
    have hright : done.length + (run width 0 todo).length + (run width 1 todo).length =
        if done.length + 2 * width > n then n else done.length + 2 * width := by
      split <;> omega
    have hsplit : done ++ run width 0 todo ++ run width 1 todo ++ todo.drop (2 * width) =
        done ++ todo := by
      conv_rhs => rw [← runs_append width todo]
      simp
    rw [hright, hfirst, hsplit] at hmerged
    rw [hmerged, List.append_assoc]
  · -- a single run is left, and the middle is behind the end of the slice
    have hsecond : run width 1 todo = [] := by
      simp [run, List.drop_eq_nil_of_le hshort]
    have hrest : todo.drop (2 * width) = [] := List.drop_eq_nil_of_le (by omega)
    have hfirst : run width 0 todo = todo := by
      simp [run, List.take_of_length_le hshort]
    rw [hfirst, hsecond, hrest, inPlaceMerge, inPlaceMergeLoop, if_neg]
    · simp
    · split <;> omega

/-! ## A pass -/

/-- **A pass of `merge_sort`** merges the runs of what it has not yet visited. -/
theorem mergePass_eq {n width : ℕ} (hwidth : 0 < width) (done todo : List T)
    (hn : n = done.length + todo.length) (hfits : n < 2 ^ 62) (hless : width < n) :
    mergePass n width hwidth (done ++ todo) done.length =
      some (done ++ mergeRuns width hwidth todo) := by
  -- by the recursion of `mergeRuns`, for everything that is visited before
  induction todo using mergeRuns.induct width hwidth generalizing done with
  | case1 =>
      rw [mergePass, if_neg (by simp [hn]), mergeRuns]
      simp
  | case2 todo hne ih =>
      have hpos := List.length_pos_of_ne_nil hne
      set merged := (run width 0 todo).merge (run width 1 todo) le with hmerged
      have hlength : merged.length = min (2 * width) todo.length := by
        simp only [hmerged, List.length_merge, run, List.length_take, List.length_drop]
        omega
      rw [mergePass, if_pos (by omega), mergeRuns, if_neg hne]
      simp only [fits_eq (show done.length + width < 2 ^ 64 by omega),
        fits_eq (show 2 * width < 2 ^ 64 by omega),
        fits_eq (show done.length + 2 * width < 2 ^ 64 by omega), Option.bind_eq_bind,
        Option.bind_some]
      rw [inPlaceMerge_runs done todo hn hfits, Option.bind_some, ← hmerged, ← List.append_assoc]
      rcases Nat.lt_or_ge todo.length (2 * width) with hshort | hlong
      -- the second run ends with the slice
      · have hrest : todo.drop (2 * width) = [] := List.drop_eq_nil_of_le (by omega)
        rw [mergePass, if_neg (by omega), hrest, mergeRuns]
        simp
      · have hlast : done.length + 2 * width = (done ++ merged).length := by
          simp only [List.length_append]
          omega
        rw [hlast, ih (done ++ merged) (by simp only [List.length_append, List.length_drop]; omega),
          List.append_assoc]

/-- The outer loop, once the runs of the current width are sorted. -/
theorem mergeSortLoop_sorts [TransOrd T] {n width : ℕ} (hwidth : 0 < width) {arr : List T}
    (hn : arr.length = n) (hfits : n < 2 ^ 62) (hruns : SortedRuns width arr) :
    ∃ sorted, mergeSortLoop n width hwidth arr = some sorted ∧
      sorted.Perm arr ∧ Sorted sorted ∧ Stable arr sorted := by
  induction hsteps : n - width using Nat.strongRecOn generalizing width arr with
  | _ steps ih =>
      rw [mergeSortLoop]
      by_cases hless : width < n
      · have hpass := mergePass_eq hwidth [] arr (by simpa using hn.symm) hfits hless
        rw [List.nil_append, List.nil_append, List.length_nil] at hpass
        have hperm : (mergeRuns width hwidth arr).Perm arr := mergeRuns_perm
        have hdouble : SortedRuns (width * 2) (mergeRuns width hwidth arr) := by
          rw [Nat.mul_comm]
          exact hruns.mergeRuns
        obtain ⟨sorted, hloop, hsorted, hle, hstable⟩ :=
          ih (n - width * 2) (by omega) (show 0 < width * 2 by omega)
            (hperm.length_eq.trans hn) hdouble rfl
        rw [if_pos hless]
        refine ⟨sorted, ?_, hsorted.trans hperm, hle, (stable_mergeRuns hruns).trans hstable⟩
        simpa [hpass, fits_eq (show width * 2 < 2 ^ 64 by omega)] using hloop
      · rw [if_neg hless]
        exact ⟨arr, rfl, .refl _, hruns.sorted (by omega), .refl _⟩

/-- **Merge sort sorts.**  On every slice of fewer than 2^62 elements it ends without an index
out of bounds or an overflow; the elements are the same, they are sorted, and elements that
compare equal keep their order. -/
theorem mergeSort_sorts [TransOrd T] (arr : List T) (hfits : arr.length < 2 ^ 62) :
    ∃ sorted, mergeSort arr = some sorted ∧
      sorted.Perm arr ∧ Sorted sorted ∧ Stable arr sorted :=
  mergeSortLoop_sorts Nat.one_pos rfl hfits (sortedRuns_one arr)

theorem mergeSort_sorts_five :
    ∃ sorted, mergeSort [5, 3, 4, 1, 3] = some sorted ∧
      sorted.Perm [5, 3, 4, 1, 3] ∧ Sorted sorted ∧ Stable [5, 3, 4, 1, 3] sorted :=
  mergeSort_sorts [5, 3, 4, 1, 3] (by decide)

end RustCourse.Lesson03
