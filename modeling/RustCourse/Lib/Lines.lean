import Mathlib.Data.List.Basic
import Mathlib.Tactic.Basic

/-!
# Lines

A text is a list over any alphabet, and one letter `sep` ends a line.  `firstLine` and
`afterLine` cut a text at its first `sep`; a text without one is a single line that has
not ended, and there `firstLine` is the whole text.  `unlines` writes lines one after the
other.

A reader that gets the text in pieces holds the front of it in a buffer and can only look
there.  The two cases it has to tell apart are whether a `sep` has come: if it has, the
buffer is cut where the text is (`firstLine_append`, `afterLine_append`), and if it has
not, the buffer is a part of the first line (`length_le_firstLine`).
-/

namespace RustCourse.Lines

variable {α : Type*} {sep : α} {text line rest buffer unread : List α}

/-! ## Lines one after the other -/

/-- The lines one after the other, each with the `sep` that ends it. -/
def unlines (sep : α) (lines : List (List α)) : List α :=
  lines.flatMap fun line => line ++ [sep]

@[simp] theorem unlines_nil : unlines sep [] = [] := rfl

@[simp] theorem unlines_cons (lines : List (List α)) :
    unlines sep (line :: lines) = line ++ sep :: unlines sep lines := by
  simp [unlines]

theorem unlines_eq_nil_iff {lines : List (List α)} : unlines sep lines = [] ↔ lines = [] := by
  cases lines <;> simp

/-- A text without a `sep` at the front of a line and more is a part of the line. -/
theorem exists_of_append_eq (h : buffer ++ unread = line ++ sep :: rest) (hbuffer : sep ∉ buffer) :
    ∃ left, line = buffer ++ left ∧ unread = left ++ sep :: rest := by
  rcases List.append_eq_append_iff.mp h with ⟨left, hline, hunread⟩ | ⟨left, hline, hunread⟩
  · exact ⟨left, hline, hunread⟩
  · cases left with
    | nil => exact ⟨[], by simpa using hline.symm, by simpa using hunread.symm⟩
    | cons first left =>
        rw [List.cons_append, List.cons.injEq] at hunread
        refine absurd ?_ hbuffer
        rw [hline, hunread.1]
        simp

/-! ## The front of a text -/

/-- The front of some lines is the first of them, and a part of the next one. -/
theorem exists_take_unlines {lines : List (List α)} (h : text <+: unlines sep lines) :
    ∃ k tail, text = unlines sep (lines.take k) ++ tail ∧
      (tail = [] ∨ ∃ line ∈ lines, tail <+: line) ∧
      ∀ k', k' ≤ lines.length → unlines sep (lines.take k') <+: text → k' ≤ k := by
  induction lines generalizing text with
  | nil => exact ⟨0, [], by simpa using h, .inl rfl, fun k' hk' _ => hk'⟩
  | cons line lines ih =>
      have hcons : ∀ after, line ++ sep :: after = line ++ [sep] ++ after :=
        List.append_cons line sep
      rw [unlines_cons] at h
      by_cases hshort : text.length ≤ line.length
      -- the text ends within the first line
      · have hpart := List.prefix_of_prefix_length_le h (List.prefix_append _ _) hshort
        refine ⟨0, text, rfl, .inr ⟨line, by simp, hpart⟩, fun k' _ hk' => ?_⟩
        cases k' with
        | zero => exact Nat.le_refl 0
        | succ k' =>
            have hlength := hk'.length_le
            rw [List.take_succ_cons, unlines_cons, List.length_append, List.length_cons] at hlength
            omega
      · rw [hcons] at h
        have hlonger : (line ++ [sep]).length ≤ text.length := by
          rw [List.length_append, List.length_singleton]
          omega
        -- the first line is whole, and its end is in the text
        obtain ⟨after, rfl⟩ :=
          List.prefix_of_prefix_length_le (List.prefix_append _ _) h hlonger
        rw [List.prefix_append_right_inj] at h
        obtain ⟨k, tail, rfl, htail, hmax⟩ := ih h
        refine ⟨k + 1, tail, by simp, ?_, fun k' hk' hfront => ?_⟩
        · exact htail.imp_right fun ⟨other, hother, hpart⟩ =>
            ⟨other, List.mem_cons_of_mem _ hother, hpart⟩
        · cases k' with
          | zero => omega
          | succ k' =>
              rw [List.take_succ_cons, unlines_cons, hcons, List.prefix_append_right_inj] at hfront
              exact Nat.succ_le_succ (hmax k' (by simpa using hk') hfront)

section Cut

variable [DecidableEq α]

/-- There are as many lines as there are `sep`s. -/
theorem count_unlines {lines : List (List α)} (h : ∀ line ∈ lines, sep ∉ line) :
    (unlines sep lines).count sep = lines.length := by
  induction lines with
  | nil => rfl
  | cons line lines ih =>
      obtain ⟨hline, hlines⟩ := List.forall_mem_cons.mp h
      rw [unlines_cons, List.count_append, List.count_eq_zero.mpr hline, List.count_cons_self,
        ih hlines, List.length_cons, Nat.zero_add]

/-- What stands before the first `sep`. -/
def firstLine (sep : α) (text : List α) : List α := text.take (text.idxOf sep)

/-- What stands behind the first `sep`. -/
def afterLine (sep : α) (text : List α) : List α := text.drop (text.idxOf sep + 1)

/-! ## Cutting a text -/

theorem length_firstLine (sep : α) (text : List α) :
    (firstLine sep text).length = text.idxOf sep := by
  rw [firstLine, List.length_take]
  exact Nat.min_eq_left List.idxOf_le_length

theorem length_afterLine (sep : α) (text : List α) :
    (afterLine sep text).length = text.length - (text.idxOf sep + 1) := by
  rw [afterLine, List.length_drop]

theorem sep_notMem_firstLine (sep : α) (text : List α) : sep ∉ firstLine sep text := by
  intro h
  have hlt := (List.mem_take_iff_idxOf_lt (List.mem_of_mem_take h)).mp h
  exact absurd hlt (Nat.lt_irrefl _)

/-- Where the first line ends, the rest begins. -/
theorem firstLine_append_afterLine (h : sep ∈ text) :
    text = firstLine sep text ++ sep :: afterLine sep text := by
  have hlt := List.idxOf_lt_length_iff.mpr h
  calc text
      = text.take (text.idxOf sep) ++ text.drop (text.idxOf sep) :=
        (List.take_append_drop _ _).symm
    _ = firstLine sep text ++ sep :: afterLine sep text := by
        rw [List.drop_eq_getElem_cons hlt, List.getElem_idxOf hlt]
        rfl

theorem idxOf_line (h : sep ∉ line) : (line ++ sep :: rest).idxOf sep = line.length := by
  rw [List.idxOf_append_of_notMem h, List.idxOf_cons_self, Nat.add_zero]

theorem firstLine_line (h : sep ∉ line) : firstLine sep (line ++ sep :: rest) = line := by
  rw [firstLine, idxOf_line h, List.take_left]

theorem afterLine_line (h : sep ∉ line) : afterLine sep (line ++ sep :: rest) = rest := by
  have hlength : line.length + 1 = (line ++ [sep]).length := by simp
  rw [afterLine, idxOf_line h, List.append_cons, hlength, List.drop_left]

/-- A text is cut in one way. -/
theorem line_unique {line' rest' : List α} (hline : sep ∉ line) (hline' : sep ∉ line')
    (h : line ++ sep :: rest = line' ++ sep :: rest') : line = line' ∧ rest = rest' := by
  have hfirst := congrArg (firstLine sep) h
  have hafter := congrArg (afterLine sep) h
  rw [firstLine_line hline, firstLine_line hline'] at hfirst
  rw [afterLine_line hline, afterLine_line hline'] at hafter
  exact ⟨hfirst, hafter⟩

theorem firstLine_of_notMem (h : sep ∉ text) : firstLine sep text = text := by
  rw [firstLine, List.idxOf_eq_length h, List.take_length]

/-! ## Cutting a buffer -/

theorem firstLine_append (h : sep ∈ buffer) :
    firstLine sep (buffer ++ unread) = firstLine sep buffer := by
  rw [firstLine, List.idxOf_append_of_mem h]
  exact List.take_append_of_le_length List.idxOf_le_length

theorem afterLine_append (h : sep ∈ buffer) :
    afterLine sep (buffer ++ unread) = afterLine sep buffer ++ unread := by
  rw [afterLine, List.idxOf_append_of_mem h]
  exact List.drop_append_of_le_length (List.idxOf_lt_length_iff.mpr h)

/-- A buffer without a `sep` is not longer than the first line. -/
theorem length_le_firstLine (h : sep ∉ buffer) :
    buffer.length ≤ (firstLine sep (buffer ++ unread)).length := by
  rw [length_firstLine, List.idxOf_append_of_notMem h]
  omega

/-- The first line in a buffer is shorter than the buffer. -/
theorem length_firstLine_lt (h : sep ∈ buffer) : (firstLine sep buffer).length < buffer.length := by
  rw [length_firstLine]
  exact List.idxOf_lt_length_iff.mpr h

/-- Taking a line makes a text shorter. -/
theorem length_afterLine_lt (h : sep ∈ text) : (afterLine sep text).length < text.length := by
  have := List.length_pos_of_mem h
  rw [length_afterLine]
  omega

/-- The lines at the front of a text are its first lines. -/
theorem lines_of_unlines {lines lines' : List (List α)} (hlines : ∀ line ∈ lines, sep ∉ line)
    (hlines' : ∀ line ∈ lines', sep ∉ line)
    (h : unlines sep lines ++ rest <+: unlines sep lines') : lines <+: lines' := by
  induction lines generalizing lines' with
  | nil => exact List.nil_prefix
  | cons line lines ih =>
      obtain ⟨hline, hlines⟩ := List.forall_mem_cons.mp hlines
      obtain ⟨after, hafter⟩ := h
      cases lines' with
      | nil => simp at hafter
      | cons line' lines' =>
          obtain ⟨hline', hothers⟩ := List.forall_mem_cons.mp hlines'
          rw [unlines_cons, unlines_cons, List.append_assoc, List.append_assoc,
            List.cons_append] at hafter
          obtain ⟨rfl, hrest⟩ := line_unique hline hline' hafter
          refine List.cons_prefix_cons.mpr ⟨rfl, ih hlines hothers ⟨after, ?_⟩⟩
          rw [← hrest, List.append_assoc]

end Cut

end RustCourse.Lines
