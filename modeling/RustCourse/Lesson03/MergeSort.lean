import Mathlib.Algebra.Ring.Nat
import Mathlib.Data.List.Induction
import RustCourse.Lib.Runs

/-!
# Merging and merge sort of lesson 03

`lessons/03/exercises/src/in_place_mergesort.rs` and `merge_slices.rs`.  A slice is a list;
a function that mutates one returns its new contents, or `none` where the source panics: an
index or a range that is out of bounds, or an index computation that overflows `usize`
(`fits`).  The loops are recursive functions that Lean accepts as terminating.

`in_place_merge` moves the smaller head of the right part in front of the left part by a
rotation, its older version by swapping it down, and `merge_slices` writes to a new vector.
All three are the merge of two lists (`inPlaceMerge_eq`, `inPlaceMergeOld_eq`,
`mergeSlices_eq`), sorted or not; so they agree, and a pass of `merge_sort` merges runs.

## Strategy

`swap_down` is a rotation by one (`swapDown_eq_rotateRight`), so the two versions of the
in-place merge do the same in every iteration and panic at the same indices
(`loops_agree`).  What a merge computes is left to `Lesson03/Sorting`.
-/

namespace RustCourse.Lesson03

open Runs Std

variable {T : Type}

/-! ## The functions -/

/-- An index computation has the result `n`. -/
def fits (n : ℕ) : Option Unit :=
  if n < 2 ^ 64 then some () else none

/-- `arr[i..j].rotate_right(1)` -/
def rotateRight (arr : List T) (i j : ℕ) : Option (List T) :=
  if i < j ∧ j ≤ arr.length then
    some (arr.take i ++ ((arr.take j).drop i).rotateRight 1 ++ arr.drop j)
  else none

/-- `arr.swap(k, l)` -/
def swap (arr : List T) (k l : ℕ) : Option (List T) := do
  let x ← arr[k]?
  let y ← arr[l]?
  return (arr.set k y).set l x

/-- `while k > i { arr.swap(k, k - 1); k -= 1; }` -/
def swapDown (arr : List T) (k i : ℕ) : Option (List T) :=
  if k > i then do
    let arr ← swap arr k (k - 1)
    swapDown arr (k - 1) i
  else some arr
termination_by k

variable [Ord T]

/-! ## Merging in place -/

/-- The loop of `in_place_merge`. -/
def inPlaceMergeLoop (arr : List T) (i j right : ℕ) : Option (List T) :=
  if i < j ∧ j < right then do
    if compare (← arr[i]?) (← arr[j]?) = .gt then
      fits (j + 1)
      let arr ← rotateRight arr i (j + 1)
      fits (i + 1)
      inPlaceMergeLoop arr (i + 1) (j + 1) right
    else
      fits (i + 1)
      inPlaceMergeLoop arr (i + 1) j right
  else some arr
termination_by right - i

/-- `in_place_merge` -/
def inPlaceMerge (arr : List T) (left mid right : ℕ) : Option (List T) :=
  inPlaceMergeLoop arr left mid right

/-- The loop of `in_place_merge_old`. -/
def inPlaceMergeOldLoop (arr : List T) (i j right : ℕ) : Option (List T) :=
  if i < j ∧ j < right then do
    if (compare (← arr[i]?) (← arr[j]?)).isLE then
      fits (i + 1)
      inPlaceMergeOldLoop arr (i + 1) j right
    else
      let arr ← swapDown arr j i
      fits (i + 1)
      fits (j + 1)
      inPlaceMergeOldLoop arr (i + 1) (j + 1) right
  else some arr
termination_by right - i

/-- `in_place_merge_old` -/
def inPlaceMergeOld (arr : List T) (left mid right : ℕ) : Option (List T) :=
  inPlaceMergeOldLoop arr left mid right

/-! ## Sorting -/

/-- The inner loop of `merge_sort`. -/
def mergePass (n width : ℕ) (hwidth : 0 < width) (arr : List T) (i : ℕ) : Option (List T) :=
  if i < n then do
    let left := i
    fits (i + width)
    let mid := i + width
    fits (2 * width)
    fits (i + 2 * width)
    let right := if i + 2 * width > n then n else i + 2 * width
    let arr ← inPlaceMerge arr left mid right
    mergePass n width hwidth arr (i + 2 * width)
  else some arr
termination_by n - i

/-- The outer loop of `merge_sort`. -/
def mergeSortLoop (n width : ℕ) (hwidth : 0 < width) (arr : List T) : Option (List T) :=
  if width < n then do
    let arr ← mergePass n width hwidth arr 0
    fits (width * 2)
    mergeSortLoop n (width * 2) (by omega) arr
  else some arr
termination_by n - width

/-- `merge_sort` -/
def mergeSort (arr : List T) : Option (List T) :=
  mergeSortLoop arr.length 1 Nat.one_pos arr

/-! ## Merging into a new vector -/

/-- The loop of `merge_slices`, and the two `extend`s behind it. -/
def mergeSlicesLoop (left right result : List T) (leftIdx rightIdx : ℕ) : Option (List T) :=
  if leftIdx < left.length ∧ rightIdx < right.length then do
    if (compare (← left[leftIdx]?) (← right[rightIdx]?)).isLE then
      fits (leftIdx + 1)
      mergeSlicesLoop left right (result ++ [← left[leftIdx]?]) (leftIdx + 1) rightIdx
    else
      fits (rightIdx + 1)
      mergeSlicesLoop left right (result ++ [← right[rightIdx]?]) leftIdx (rightIdx + 1)
  else if leftIdx ≤ left.length ∧ rightIdx ≤ right.length then
    some (result ++ left.drop leftIdx ++ right.drop rightIdx)
  else none
termination_by left.length - leftIdx + (right.length - rightIdx)

/-- `merge_slices` -/
def mergeSlices (left right : List T) : Option (List T) := do
  fits (left.length + right.length)
  mergeSlicesLoop left right [] 0 0

/-! ## Moving one element -/

@[simp] theorem fits_eq {n : ℕ} (h : n < 2 ^ 64) : fits n = some () :=
  if_pos h

section Moving

omit [Ord T]

variable (before part after : List T) (b : T)

private theorem rotateRight_snoc : (part ++ [b]).rotateRight 1 = b :: part := by
  rcases part with _ | ⟨c, part⟩
  · rfl
  · have hlength : ¬ (c :: part ++ [b]).length ≤ 1 := by simp
    have hlast : (c :: part ++ [b]).length - 1 % (c :: part ++ [b]).length =
        (c :: part).length := by
      rw [Nat.mod_eq_of_lt (by omega)]
      simp
    simp only [List.rotateRight, if_neg hlength, hlast, List.drop_left, List.take_left,
      List.singleton_append]

/-- The rotation takes the element behind a part of the slice in front of it. -/
theorem rotateRight_eq :
    rotateRight (before ++ part ++ b :: after) before.length (before.length + part.length + 1) =
      some (before ++ b :: part ++ after) := by
  have hrange : before.length < before.length + part.length + 1 ∧
      before.length + part.length + 1 ≤ (before ++ part ++ b :: after).length := by
    simp only [List.length_append, List.length_cons]
    omega
  have hsplit : before ++ part ++ b :: after = before ++ (part ++ [b]) ++ after := by simp
  have hlength : before.length + part.length + 1 = (before ++ (part ++ [b])).length := by
    simp only [List.length_append, List.length_singleton]
    omega
  rw [rotateRight, if_pos hrange, hsplit, hlength, List.take_left, List.drop_left,
    List.drop_left, rotateRight_snoc, List.append_assoc before, List.take_left]

private theorem swap_eq (c : T) {l : ℕ} (hl : l = before.length) :
    swap (before ++ c :: b :: after) (l + 1) l = some (before ++ b :: c :: after) := by
  subst hl
  simp [swap]

/-- So do the swaps. -/
theorem swapDown_eq :
    swapDown (before ++ part ++ b :: after) (before.length + part.length) before.length =
      some (before ++ b :: part ++ after) := by
  induction part using List.reverseRecOn generalizing after with
  | nil =>
      rw [swapDown]
      simp
  | append_singleton part c ih =>
      have hsplit : before ++ (part ++ [c]) ++ b :: after =
          (before ++ part) ++ c :: b :: after := by
        simp
      have hlength : before.length + (part ++ [c]).length = (before ++ part).length + 1 := by
        simp only [List.length_append, List.length_singleton]
        omega
      have hmore : (before ++ part).length + 1 > before.length := by
        simp only [List.length_append]
        omega
      rw [hsplit, hlength, swapDown, if_pos hmore, Nat.add_sub_cancel, swap_eq _ _ _ _ rfl]
      simpa using ih (c :: after)

/-- **One rotation is a loop of swaps.** -/
theorem swapDown_eq_rotateRight {arr : List T} {i j : ℕ} (hij : i < j) (hj : j < arr.length) :
    swapDown arr j i = rotateRight arr i (j + 1) := by
  have hsplit : arr = arr.take i ++ (arr.take j).drop i ++ arr[j] :: arr.drop (j + 1) := by
    have hfirst : arr.take i = (arr.take j).take i := by
      rw [List.take_take, Nat.min_eq_left (Nat.le_of_lt hij)]
    rw [hfirst, List.take_append_drop, ← List.drop_eq_getElem_cons, List.take_append_drop]
  have hi : (arr.take i).length = i := by
    rw [List.length_take]
    omega
  have hj' : (arr.take i).length + ((arr.take j).drop i).length = j := by
    simp only [List.length_drop, List.length_take]
    omega
  have hmoved := swapDown_eq (arr.take i) ((arr.take j).drop i) (arr.drop (j + 1)) arr[j]
  have hrotated := rotateRight_eq (arr.take i) ((arr.take j).drop i) (arr.drop (j + 1)) arr[j]
  rw [← hsplit, hj', hi] at hmoved hrotated
  rw [hmoved, hrotated]

end Moving

/-! ## The two in-place merges -/

omit [Ord T] in
private theorem length_rotateRight_one (xs : List T) : (xs.rotateRight 1).length = xs.length := by
  rcases List.eq_nil_or_concat xs with rfl | ⟨part, b, rfl⟩
  · rfl
  · rw [List.concat_eq_append, rotateRight_snoc]
    simp

omit [Ord T] in
theorem length_of_rotateRight {arr arr' : List T} {i j : ℕ} (h : rotateRight arr i j = some arr') :
    arr'.length = arr.length := by
  simp only [rotateRight] at h
  split at h
  · next hrange =>
      cases h
      simp only [List.length_append, length_rotateRight_one, List.length_take, List.length_drop]
      omega
  · cases h

/-- The rotation and the swaps take the same branch, move the same element and go on at the
same places. -/
theorem loops_agree {arr : List T} {i j right : ℕ} (hright : right ≤ arr.length)
    (hlength : arr.length < 2 ^ 64) :
    ∃ merged, inPlaceMergeLoop arr i j right = some merged ∧
      inPlaceMergeOldLoop arr i j right = some merged := by
  -- by induction on how far the left index has to go
  induction hsteps : right - i generalizing arr i j with
  | zero =>
      have hdone : ¬ (i < j ∧ j < right) := by omega
      exact ⟨arr, by rw [inPlaceMergeLoop, if_neg hdone], by rw [inPlaceMergeOldLoop, if_neg hdone]⟩
  | succ steps ih =>
      by_cases hmore : i < j ∧ j < right
      · obtain ⟨hij, hj⟩ := hmore
        have hi : arr[i]? = some arr[i] := List.getElem?_eq_getElem (by omega)
        have hj' : arr[j]? = some arr[j] := List.getElem?_eq_getElem (by omega)
        rw [inPlaceMergeLoop, inPlaceMergeOldLoop, if_pos ⟨hij, hj⟩, if_pos ⟨hij, hj⟩, hi, hj']
        simp only [Option.bind_eq_bind, Option.bind_some]
        by_cases hgt : compare arr[i] arr[j] = .gt
        -- the newer version rotates where the older one swaps
        · obtain ⟨rotated, hrotated⟩ : ∃ rotated, rotateRight arr i (j + 1) = some rotated :=
            ⟨_, if_pos ⟨by omega, by omega⟩⟩
          have hswaps : swapDown arr j i = some rotated :=
            (swapDown_eq_rotateRight hij (by omega)).trans hrotated
          have hlength' := length_of_rotateRight hrotated
          have hright' : right ≤ rotated.length := hlength' ▸ hright
          obtain ⟨merged, hnew, hold⟩ :=
            ih (i := i + 1) (j := j + 1) hright' (by omega) (by omega)
          refine ⟨merged, ?_, ?_⟩
          · simpa [hgt, hrotated, fits_eq (show j + 1 < 2 ^ 64 by omega),
              fits_eq (show i + 1 < 2 ^ 64 by omega)] using hnew
          · simpa [hgt, hswaps, fits_eq (show j + 1 < 2 ^ 64 by omega),
              fits_eq (show i + 1 < 2 ^ 64 by omega)] using hold
        -- the head of the left part stays where it is
        · have hle : (compare arr[i] arr[j]).isLE := by
            rwa [Ordering.isLE_iff_ne_gt]
          obtain ⟨merged, hnew, hold⟩ :=
            ih (i := i + 1) (j := j) hright hlength (by omega)
          refine ⟨merged, ?_, ?_⟩
          · simpa [hgt, fits_eq (show i + 1 < 2 ^ 64 by omega)] using hnew
          · simpa [hle, fits_eq (show i + 1 < 2 ^ 64 by omega)] using hold
      · exact ⟨arr, by rw [inPlaceMergeLoop, if_neg hmore],
          by rw [inPlaceMergeOldLoop, if_neg hmore]⟩

/-- **The rewritten merge equals the old one** on every slice, sorted or not, and for all
bounds of which the right one is in the slice. -/
theorem inPlaceMerge_eq_old {arr : List T} {left mid right : ℕ} (hright : right ≤ arr.length)
    (hlength : arr.length < 2 ^ 64) :
    ∃ merged, inPlaceMerge arr left mid right = some merged ∧
      inPlaceMergeOld arr left mid right = some merged :=
  loops_agree hright hlength

theorem inPlaceMerge_eq_old_tail :
    ∃ merged, inPlaceMerge [3, 2, 5, 1] 1 3 4 = some merged ∧
      inPlaceMergeOld [3, 2, 5, 1] 1 3 4 = some merged :=
  inPlaceMerge_eq_old (by decide) (by decide)

end RustCourse.Lesson03
