import Mathlib.Data.List.Basic
import Mathlib.Tactic.Basic

/-!
# Chunks of a slice

`slice::chunks(n)` as a list: chunk `i` holds the items from `i * n` on, `n` of them or as
many as there are.  The chunks put together are the slice (`flatten_chunks`).

## Strategy

The definition asks for a number of pieces and takes each from the slice on its own, so
everything follows from what `count` pieces are together, whatever `count` is: the front of the
slice up to `count * n` (`flatten_pieces`, by induction on `count`).  The number that `chunks`
takes is the quotient rounded up, which is the least number of pieces that reach the end
(`length_chunks_le_iff`).  Both facts are about natural numbers and leave the rounding to
`Nat.div_le_iff_le_mul` and its like.
-/

namespace RustCourse.Slice

variable {α : Type*}

/-! ## The chunks -/

/-- `slice::chunks`, which panics for `n = 0`. -/
def chunks (n : ℕ) (items : List α) : List (List α) :=
  (List.range ((items.length + n - 1) / n)).map fun i => (items.drop (i * n)).take n

example : chunks 3 [1, 2, 3, 4, 5, 6, 7] = [[1, 2, 3], [4, 5, 6], [7]] := by decide

/-- The first `count` pieces are the front of the slice. -/
theorem flatten_pieces (n : ℕ) (items : List α) (count : ℕ) :
    ((List.range count).map fun i => (items.drop (i * n)).take n).flatten =
      items.take (count * n) := by
  induction count with
  | zero => simp
  | succ count ih =>
      rw [List.range_succ, List.map_append, List.flatten_append, ih, List.map_singleton,
        List.flatten_singleton, Nat.succ_mul, List.take_add]

theorem flatten_chunks {n : ℕ} (hn : 0 < n) (items : List α) :
    (chunks n items).flatten = items := by
  rw [chunks, flatten_pieces]
  refine List.take_of_length_le ?_
  -- as many chunks as there are, `n` items each, are enough
  have hdiv := Nat.lt_div_mul_add (a := items.length + n - 1) hn
  omega

/-! ## How many there are -/

theorem length_chunks (n : ℕ) (items : List α) :
    (chunks n items).length = (items.length + n - 1) / n := by
  rw [chunks, List.length_map, List.length_range]

/-- As many chunks as that are enough. -/
theorem length_chunks_le_iff {n count : ℕ} (hn : 0 < n) {items : List α} :
    (chunks n items).length ≤ count ↔ items.length ≤ count * n := by
  rw [length_chunks, Nat.div_le_iff_le_mul hn]
  omega

end RustCourse.Slice
